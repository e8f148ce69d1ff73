import TypeIndex.ReadableNames

/-!
# Undoing the decoration of demangled names

`stl_type_index::pretty_name` scans a demangled name from both ends. For every demangled
name the scan stays between its first character and its terminator, and what it shows
is the whole name or the saved one.
-/

namespace TypeIndex

open CMemory

/-! ## The positions read -/

/-- The positions that the loop over leading spaces dereferences. -/
def trimLeadingSpacesReads (m : CharMemory) (b : Pointer) : List Pointer :=
  b ::
    match _ : m.read b with
    | none => []
    | some c => if c = space then trimLeadingSpacesReads m (b + 1) else []
termination_by (m.after b).length
decreasing_by exact Memory.after_add_one_length_lt ‹_›

/-- The positions that the search for the last closing bracket dereferences. -/
def skipClosingBracketReads (m : CharMemory) (b e : Pointer) : List Pointer :=
  if _ : b.offset < e.offset then
    e ::
      match m.read e with
      | none => []
      | some c => if c ≠ closingBracket then skipClosingBracketReads m b (e - 1) else []
  else []
termination_by e.offset
decreasing_by
  change e.offset - 1 < e.offset
  omega

/-- The positions that the loop over trailing spaces dereferences. -/
def skipTrailingSpacesReads (m : CharMemory) (b e : Pointer) : List Pointer :=
  if _ : b.offset < e.offset then
    (e - 1) ::
      match m.read (e - 1) with
      | none => []
      | some c => if c = space then skipTrailingSpacesReads m b (e - 1) else []
  else []
termination_by e.offset
decreasing_by
  change e.offset - 1 < e.offset
  omega

/-- The positions that the scan of a demangled name dereferences, in order. -/
def undecorateReads (m : CharMemory) (first : Pointer) (len : ℕ) : List Pointer :=
  if cvrSaverName.length < len then
    match strstr m first cvrSaverName with
    | some (some b) =>
      trimLeadingSpacesReads m (b + cvrSaverName.length) ++
        match trimLeadingSpaces m (b + cvrSaverName.length) with
        | none => []
        | some b =>
          skipClosingBracketReads m b (first + len - 1) ++
            match skipClosingBracket m b (first + len - 1) with
            | none => []
            | some e => skipTrailingSpacesReads m b e
    | _ => []
  else []

section Reads

variable {m m' : CharMemory} {b e p first : Pointer} {s d : List UInt8}

/-- The loop over leading spaces reads up to the first other character. -/
theorem mem_trimLeadingSpacesReads (h : m.StringAt b s) (hp : p ∈ trimLeadingSpacesReads m b) :
    ∃ i ≤ s.length, p = b + i := by
  induction s generalizing b with
  | nil =>
    rw [trimLeadingSpacesReads, List.mem_cons] at hp
    rcases hp with rfl | hp
    · exact ⟨0, Nat.le_refl _, rfl⟩
    · split at hp
      · exact absurd hp List.not_mem_nil
      · next c hc =>
        have hzero : c = 0 := Option.some.inj (hc.symm.trans h.2.read_head)
        rw [hzero, if_neg (by decide)] at hp
        exact absurd hp List.not_mem_nil
  | cons c s ih =>
    rw [trimLeadingSpacesReads, List.mem_cons] at hp
    rcases hp with rfl | hp
    · exact ⟨0, Nat.zero_le _, rfl⟩
    · split at hp
      · exact absurd hp List.not_mem_nil
      · split_ifs at hp
        · have htail : m.StringAt (b + 1) s := h.add (s := [c])
          obtain ⟨i, hi, rfl⟩ := ih htail hp
          refine ⟨1 + i, ?_, Pointer.add_add _ _ _⟩
          rw [List.length_cons]
          omega
        · exact absurd hp List.not_mem_nil

/-- The search for the bracket reads behind its lower bound and not behind its start. -/
theorem mem_skipClosingBracketReads (hp : p ∈ skipClosingBracketReads m b e) :
    p.block = e.block ∧ b.offset < p.offset ∧ p.offset ≤ e.offset := by
  induction e using skipClosingBracketReads.induct b with
  | case1 e hlt ih =>
    rw [skipClosingBracketReads, dif_pos hlt, List.mem_cons] at hp
    rcases hp with rfl | hp
    · exact ⟨rfl, hlt, Nat.le_refl _⟩
    · split at hp
      · exact absurd hp List.not_mem_nil
      · next c _ =>
        split_ifs at hp with hc
        · obtain ⟨hblock, hlow, hhigh⟩ := ih hp
          exact ⟨hblock, hlow, hhigh.trans (Nat.sub_le _ _)⟩
        · exact absurd hp List.not_mem_nil
  | case2 e hle =>
    rw [skipClosingBracketReads, dif_neg hle] at hp
    exact absurd hp List.not_mem_nil

/-- The loop over trailing spaces reads in front of its start and not in front of its
lower bound. -/
theorem mem_skipTrailingSpacesReads (hp : p ∈ skipTrailingSpacesReads m b e) :
    p.block = e.block ∧ b.offset ≤ p.offset ∧ p.offset < e.offset := by
  induction e using skipTrailingSpacesReads.induct b with
  | case1 e hlt ih =>
    have hsub := e.sub_offset 1
    rw [skipTrailingSpacesReads, dif_pos hlt, List.mem_cons] at hp
    rcases hp with rfl | hp
    · exact ⟨rfl, by omega, by omega⟩
    · split at hp
      · exact absurd hp List.not_mem_nil
      · next c _ =>
        split_ifs at hp with hc
        · obtain ⟨hblock, hlow, hhigh⟩ := ih hp
          exact ⟨hblock, hlow, by omega⟩
        · exact absurd hp List.not_mem_nil
  | case2 e hle =>
    rw [skipTrailingSpacesReads, dif_neg hle] at hp
    exact absurd hp List.not_mem_nil

/-- The search for the bracket does not move forward. -/
theorem skipClosingBracket_le {e' : Pointer} (h : skipClosingBracket m b e = some e') :
    e'.block = e.block ∧ e'.offset ≤ e.offset := by
  induction e using skipClosingBracketReads.induct b with
  | case1 e hlt ih =>
    rw [skipClosingBracket, dif_pos hlt] at h
    obtain ⟨c, -, h⟩ := Option.bind_eq_some_iff.mp h
    split_ifs at h with hc
    · obtain ⟨hblock, hle⟩ := ih h
      exact ⟨hblock, hle.trans (Nat.sub_le _ _)⟩
    · cases h
      exact ⟨rfl, Nat.le_refl _⟩
  | case2 e hle =>
    rw [skipClosingBracket, dif_neg hle] at h
    cases h
    exact ⟨rfl, Nat.le_refl _⟩

/-- The scan of a demangled name reads no position before its first character and none
behind its terminator. -/
theorem mem_undecorateReads (h : m.StringAt first d) (hp : p ∈ undecorateReads m first d.length) :
    p.block = first.block ∧ first.offset ≤ p.offset ∧ p.offset ≤ first.offset + d.length := by
  unfold undecorateReads at hp
  split_ifs at hp with hlen
  · rw [h.strstr] at hp
    cases hfind : findFirst cvrSaverName d with
    | none =>
      rw [hfind] at hp
      exact absurd hp List.not_mem_nil
    | some k =>
      have hocc := (findFirst_eq_some.mp hfind).1.add_length_le (by decide)
      have hsplit := h
      rw [← List.take_append_drop (k + cvrSaverName.length) d] at hsplit
      have hdrop := hsplit.add
      rw [List.length_take_of_le hocc, ← Pointer.add_add] at hdrop
      rw [hfind] at hp
      simp only [Option.map_some, trimLeadingSpaces_eq hdrop, List.mem_append] at hp
      rcases hp with hp | hp | hp
      · obtain ⟨i, hi, rfl⟩ := mem_trimLeadingSpacesReads hdrop hp
        rw [List.length_drop] at hi
        simp only [Pointer.add_block, Pointer.add_offset, true_and]
        omega
      · obtain ⟨hblock, hlow, hhigh⟩ := mem_skipClosingBracketReads hp
        simp only [Pointer.add_offset, Pointer.sub_offset] at hlow hhigh
        exact ⟨hblock, by omega, by omega⟩
      · split at hp
        · exact absurd hp List.not_mem_nil
        · next e he =>
          obtain ⟨hblock, hle⟩ := skipClosingBracket_le he
          obtain ⟨hblock', hlow, hhigh⟩ := mem_skipTrailingSpacesReads hp
          simp only [Pointer.add_offset, Pointer.sub_offset] at hlow hle
          exact ⟨hblock'.trans hblock, by omega, by omega⟩
  · exact absurd hp List.not_mem_nil

/-! ## The scan depends on these positions only -/

/-- A character that cannot be read ends the loop over leading spaces without result. -/
theorem trimLeadingSpaces_of_unreadable (h : m.read b = none) : trimLeadingSpaces m b = none := by
  rw [trimLeadingSpaces]
  split
  · rfl
  · simp_all

/-- The first loop depends on the characters that it reads. -/
theorem trimLeadingSpaces_congr (h : ∀ p ∈ trimLeadingSpacesReads m b, m'.read p = m.read p) :
    trimLeadingSpaces m' b = trimLeadingSpaces m b := by
  induction b using trimLeadingSpacesReads.induct m with
  | case1 b ih =>
    rw [trimLeadingSpacesReads] at h
    have hread := h b List.mem_cons_self
    cases hb : m.read b with
    | none =>
      rw [trimLeadingSpaces_of_unreadable hb, trimLeadingSpaces_of_unreadable (hread.trans hb)]
    | some c =>
      rw [trimLeadingSpaces_step hb, trimLeadingSpaces_step (hread.trans hb)]
      by_cases hc : c = space
      · rw [if_pos hc, if_pos hc]
        refine ih c hb fun p hp => h p (List.mem_cons_of_mem _ ?_)
        split
        · simp_all
        · simp_all
      · rw [if_neg hc, if_neg hc]

/-- The second loop has no result behind an invalid read. -/
theorem skipClosingBracket_of_unreadable (hlt : b.offset < e.offset) (h : m.read e = none) :
    skipClosingBracket m b e = none := by
  rw [skipClosingBracket, dif_pos hlt, h]
  rfl

/-- The second loop depends on the characters that it reads. -/
theorem skipClosingBracket_congr
    (h : ∀ p ∈ skipClosingBracketReads m b e, m'.read p = m.read p) :
    skipClosingBracket m' b e = skipClosingBracket m b e := by
  induction e using skipClosingBracketReads.induct b with
  | case1 e hlt ih =>
    rw [skipClosingBracketReads, dif_pos hlt] at h
    have hread := h e List.mem_cons_self
    cases he : m.read e with
    | none =>
      rw [skipClosingBracket_of_unreadable hlt he,
        skipClosingBracket_of_unreadable hlt (hread.trans he)]
    | some c =>
      rw [skipClosingBracket_step hlt he, skipClosingBracket_step hlt (hread.trans he)]
      by_cases hc : c ≠ closingBracket
      · rw [if_pos hc, if_pos hc]
        rw [he] at h
        refine ih fun p hp => h p (List.mem_cons_of_mem _ ?_)
        simpa only [if_pos hc] using hp
      · rw [if_neg hc, if_neg hc]
  | case2 e hle =>
    have hstop := not_lt.mp hle
    rw [skipClosingBracket_of_le hstop, skipClosingBracket_of_le hstop]

/-- The third loop has no result behind an invalid read. -/
theorem skipTrailingSpaces_of_unreadable (hlt : b.offset < e.offset)
    (h : m.read (e - 1) = none) : skipTrailingSpaces m b e = none := by
  rw [skipTrailingSpaces, dif_pos hlt, h]
  rfl

/-- The third loop depends on the characters that it reads. -/
theorem skipTrailingSpaces_congr
    (h : ∀ p ∈ skipTrailingSpacesReads m b e, m'.read p = m.read p) :
    skipTrailingSpaces m' b e = skipTrailingSpaces m b e := by
  induction e using skipTrailingSpacesReads.induct b with
  | case1 e hlt ih =>
    rw [skipTrailingSpacesReads, dif_pos hlt] at h
    have hread := h (e - 1) List.mem_cons_self
    cases he : m.read (e - 1) with
    | none =>
      rw [skipTrailingSpaces_of_unreadable hlt he,
        skipTrailingSpaces_of_unreadable hlt (hread.trans he)]
    | some c =>
      rw [skipTrailingSpaces_step hlt he, skipTrailingSpaces_step hlt (hread.trans he)]
      by_cases hc : c = space
      · rw [if_pos hc, if_pos hc]
        rw [he] at h
        refine ih fun p hp => h p (List.mem_cons_of_mem _ ?_)
        simpa only [if_pos hc] using hp
      · rw [if_neg hc, if_neg hc]
  | case2 e hle =>
    have hstop := not_lt.mp hle
    rw [skipTrailingSpaces_of_le hstop, skipTrailingSpaces_of_le hstop]

/-- The bounds that the scan computes depend on the library's search and on the
positions that the scan reads. -/
theorem undecorate_congr {len : ℕ}
    (hstrstr : strstr m' first cvrSaverName = strstr m first cvrSaverName)
    (h : ∀ p ∈ undecorateReads m first len, m'.read p = m.read p) :
    undecorate m' first len = undecorate m first len := by
  unfold undecorateReads at h
  unfold undecorate
  by_cases hlen : cvrSaverName.length < len
  · rw [if_pos hlen] at h
    rw [if_pos hlen, if_pos hlen, hstrstr]
    cases hfound : strstr m first cvrSaverName with
    | none => rfl
    | some found =>
      cases found with
      | none => rfl
      | some b =>
        rw [hfound] at h
        have htrim := trimLeadingSpaces_congr fun p hp => h p (List.mem_append_left _ hp)
        simp only [Option.bind_eq_bind, Option.bind_some, htrim]
        cases hb : trimLeadingSpaces m (b + cvrSaverName.length) with
        | none => rfl
        | some b' =>
          simp only [hb, List.mem_append] at h
          have hbracket := skipClosingBracket_congr fun p hp => h p (Or.inr (Or.inl hp))
          simp only [Option.bind_some, hbracket]
          cases he : skipClosingBracket m b' (first + len - 1) with
          | none => rfl
          | some e =>
            simp only [he] at h
            have hspaces := skipTrailingSpaces_congr fun p hp => h p (Or.inr (Or.inr hp))
            simp only [Option.bind_some, hspaces]
  · rw [if_neg hlen, if_neg hlen]

end Reads

/-! ## The name shown -/

/-- What a demangled name is shown as. A name without the decoration is shown as it is,
the saved name of a decorated one is shown exactly, and whatever is shown is the whole
name or lies between the first decoration and the last closing bracket. -/
structure Undecorates (d shown : List UInt8) : Prop where
  /-- Without the decoration all of the name is shown. -/
  plain : (∀ k, ¬ OccursAt cvrSaverName d k) → shown = d
  /-- Of a decorated name the saved name is shown without the spaces around it. -/
  saved : ∀ before name after i j,
    d = before ++ cvrSaverName ++
      (List.replicate i space ++ name ++ List.replicate j space ++ closingBracket :: after) →
    (∀ k, ¬ OccursAt cvrSaverName before k) → closingBracket ∉ after →
    name ≠ [] → name.head? ≠ some space → name.getLast? ≠ some space → shown = name
  /-- In every case all of the name is shown, or a trimmed part between the first
  decoration and the last closing bracket. -/
  between : shown = d ∨ ∃ k left right after, FirstOccurrence cvrSaverName d k ∧
    d = d.take (k + cvrSaverName.length) ++ (left ++ shown ++ right ++ closingBracket :: after) ∧
    closingBracket ∉ after ∧ shown ≠ [] ∧ shown.head? ≠ some space ∧
    shown.getLast? ≠ some space

section Shown

variable {d : List UInt8} {k : ℕ}

/-- A saved name lies between the decoration and the last closing bracket, and has no
space at either end. -/
theorem savedName_between (hne : savedName d k ≠ []) :
    ∃ left right after, d = d.take (k + cvrSaverName.length) ++
        (left ++ savedName d k ++ right ++ closingBracket :: after) ∧
      closingBracket ∉ after ∧ (savedName d k).head? ≠ some space ∧
      (savedName d k).getLast? ≠ some space := by
  set rest := d.drop (k + cvrSaverName.length) with hrest
  obtain ⟨c, tail, hbehind, hmem⟩ := bracketed_dropWhile_ne_nil_iff.mp hne
  obtain ⟨front, after, hsplit, hafter⟩ : ∃ front after,
      rest.dropWhile (· = space) = front ++ closingBracket :: after ∧ closingBracket ∉ after :=
    exists_last_bracket (by rw [hbehind]; exact List.mem_cons_of_mem _ hmem)
  have hsaved : savedName d k = front.rdropWhile (· = space) := by
    rw [savedName, ← hrest, hsplit, bracketed_append hafter]
  rw [hsaved] at hne ⊢
  refine ⟨rest.takeWhile (· = space), front.rtakeWhile (· = space), after, ?_, hafter, ?_, ?_⟩
  · rw [List.append_assoc, List.append_assoc, ← List.append_assoc (front.rdropWhile _),
      List.rdropWhile_append_rtakeWhile, ← hsplit, List.takeWhile_append_dropWhile, hrest,
      List.take_append_drop]
  · intro hhead
    obtain ⟨rest', hrest'⟩ := List.head?_eq_some_iff.mp hhead
    have hfront : front.head? = some space := by
      have htrim : front.rdropWhile (· = space) ++ front.rtakeWhile (· = space) = front :=
        List.rdropWhile_append_rtakeWhile
      rw [← htrim, hrest']
      rfl
    have hstart : (rest.dropWhile (· = space)).head? = some space := by
      rw [hsplit, List.head?_append, hfront]
      rfl
    have hnot := List.head?_dropWhile_not (· = space) rest
    rw [hstart] at hnot
    simp at hnot
  · intro hlast
    rw [List.getLast?_eq_some_getLast hne, Option.some.injEq] at hlast
    exact List.rdropWhile_last_not _ _ hne (decide_eq_true hlast)

/-- The undecorated name is the name shown. -/
theorem undecorates_undecorated (d : List UInt8) : Undecorates d (undecorated d) := by
  refine ⟨fun hnone => ?_, ?_, ?_⟩
  · exact undecorated_of_none (findFirst_eq_none.mpr hnone)
  · rintro before name after i j rfl hbefore hafter hne hhead hlast
    exact undecorated_saved hbefore hafter hne hhead hlast i j
  · cases hfind : findFirst cvrSaverName d with
    | none => exact Or.inl (undecorated_of_none hfind)
    | some k =>
      rw [undecorated_of_some hfind]
      by_cases hempty : savedName d k = []
      · exact Or.inl (if_pos hempty)
      · rw [if_neg hempty]
        obtain ⟨left, right, after, hsplit, hafter, hhead, hlast⟩ := savedName_between hempty
        exact Or.inr ⟨k, left, right, after, findFirst_eq_some.mp hfind, hsplit, hafter, hempty,
          hhead, hlast⟩

end Shown

/-- `pretty_name` undoes the decoration of every demangled name: it ends and shows the
name as specified. Its scan reads no position before the demangled name and none behind
the terminator, and depends on no others. -/
theorem prettyName_undecorates {m : CharMemory} {Info : Type*} (C : TypeInfoClass m Info)
    (demangle : CStr m → Option (CStr m)) (self : StlTypeIndex Info) (v : CStr m)
    (h : demangle (C.name self.data) = some v) :
    (∃ shown, self.prettyName C demangle = some (.ok shown) ∧ Undecorates v.chars shown) ∧
    (∀ p ∈ undecorateReads m v.ptr v.chars.length, p.block = v.ptr.block ∧
      v.ptr.offset ≤ p.offset ∧ p.offset ≤ v.ptr.offset + v.chars.length) ∧
    ∀ m' : CharMemory, strstr m' v.ptr cvrSaverName = strstr m v.ptr cvrSaverName →
      (∀ p ∈ undecorateReads m v.ptr v.chars.length, m'.read p = m.read p) →
      undecorate m' v.ptr v.chars.length = undecorate m v.ptr v.chars.length :=
  ⟨⟨_, StlTypeIndex.prettyName_eq h, undecorates_undecorated _⟩,
    fun _ hp => mem_undecorateReads v.stringAt_chars hp, fun _ => undecorate_congr⟩

/-- The demangled name of `detail::cvr_saver<int>`. -/
theorem prettyName_undecorates_saver :
    let v : CStr saverMemory := ⟨⟨3, 0⟩, by decide⟩
    (∃ shown, (⟨()⟩ : StlTypeIndex Unit).prettyName saverToolchain.typeInfo
        saverToolchain.demangle = some (.ok shown) ∧ Undecorates v.chars shown) ∧
    (∀ p ∈ undecorateReads saverMemory v.ptr v.chars.length, p.block = v.ptr.block ∧
      v.ptr.offset ≤ p.offset ∧ p.offset ≤ v.ptr.offset + v.chars.length) ∧
    ∀ m' : CharMemory, strstr m' v.ptr cvrSaverName = strstr saverMemory v.ptr cvrSaverName →
      (∀ p ∈ undecorateReads saverMemory v.ptr v.chars.length,
        m'.read p = saverMemory.read p) →
      undecorate m' v.ptr v.chars.length = undecorate saverMemory v.ptr v.chars.length :=
  prettyName_undecorates saverToolchain.typeInfo saverToolchain.demangle ⟨()⟩ ⟨⟨3, 0⟩, by decide⟩
    rfl

end TypeIndex
