import TypeIndex.CMemory.Basic
import TypeIndex.CMemory.Occurrence

/-!
# The search for the end of a decoration

`constexpr_search` looks for a pattern in a text by comparing from each position
in turn. Its inner loop reads both characters before it tests either end, and
leaves the whole search as soon as a partial match reaches the end of the text.
On ranges that memory holds, every read succeeds and the result is the first
occurrence of the pattern.
-/

namespace TypeIndex

open CMemory

variable {α : Type*} [DecidableEq α]

/-- The inner loop from one start: an answer for the whole search, or a mismatch. -/
def constexprSearchMatch (m : Memory α) (first1 last1 last2 it1 it2 : Pointer) :
    Option (Option Pointer) :=
  match _h : m.read it1, m.read it2 with
  | some c1, some c2 =>
    if c1 = c2 then
      if it2 + 1 = last2 then some (some first1)
      else if it1 + 1 = last1 then some (some last1)
      else constexprSearchMatch m first1 last1 last2 (it1 + 1) (it2 + 1)
    else some none
  | _, _ => none
termination_by (m.after it1).length
decreasing_by exact Memory.after_add_one_length_lt _h

/-- An inner loop that ends has read the character at its start. -/
theorem read_of_constexprSearchMatch {m : Memory α} {first1 last1 last2 it1 it2 : Pointer}
    {r : Option Pointer} (h : constexprSearchMatch m first1 last1 last2 it1 it2 = some r) :
    ∃ c, m.read it1 = some c := by
  cases hread : m.read it1 with
  | some c => exact ⟨c, rfl⟩
  | none =>
    rw [constexprSearchMatch] at h
    split at h
    · simp_all
    · cases h

/-- The outer loop over the starting positions. -/
def constexprSearchFrom (m : Memory α) (first1 last1 first2 last2 : Pointer) : Option Pointer :=
  if first1 = last1 then some last1
  else
    match _h : constexprSearchMatch m first1 last1 last2 first1 first2 with
    | some (some result) => some result
    | some none => constexprSearchFrom m (first1 + 1) last1 first2 last2
    | none => none
termination_by (m.after first1).length
decreasing_by
  obtain ⟨c, hc⟩ := read_of_constexprSearchMatch _h
  exact Memory.after_add_one_length_lt hc

/-- `constexpr_search`; no result when a read falls outside an array. -/
def constexprSearch (m : Memory α) (first1 last1 first2 last2 : Pointer) : Option Pointer :=
  if first2 = last2 then some first1
  else constexprSearchFrom m first1 last1 first2 last2

section Spec

variable {m : Memory α}

/-- One iteration of the inner loop on two characters that can be read. -/
theorem constexprSearchMatch_step {first1 last1 last2 it1 it2 : Pointer} {c1 c2 : α}
    (h1 : m.read it1 = some c1) (h2 : m.read it2 = some c2) :
    constexprSearchMatch m first1 last1 last2 it1 it2 =
      if c1 = c2 then
        if it2 + 1 = last2 then some (some first1)
        else if it1 + 1 = last1 then some (some last1)
        else constexprSearchMatch m first1 last1 last2 (it1 + 1) (it2 + 1)
      else some none := by
  rw [constexprSearchMatch]
  split
  · next hr1 hr2 =>
    rw [h1, Option.some.injEq] at hr1
    rw [h2, Option.some.injEq] at hr2
    rw [hr1, hr2]
  · next hnone => exact absurd h2 (hnone c1 c2 h1)

/-- One iteration of the outer loop before the end of the text. -/
theorem constexprSearchFrom_step {first1 last1 first2 last2 : Pointer} (hne : first1 ≠ last1) :
    constexprSearchFrom m first1 last1 first2 last2 =
      match constexprSearchMatch m first1 last1 last2 first1 first2 with
      | some (some result) => some result
      | some none => constexprSearchFrom m (first1 + 1) last1 first2 last2
      | none => none := by
  rw [constexprSearchFrom, if_neg hne]
  split <;> next hmatch => rw [hmatch]

/-- The inner loop finds the pattern, runs into the end of a text that starts the
pattern, or meets a mismatch. -/
theorem constexprSearchMatch_eq {first1 it1 it2 : Pointer} {text pat : List α}
    (htext : m.HoldsAt it1 text) (hpat : m.HoldsAt it2 pat) (hne : pat ≠ []) (hne' : text ≠ []) :
    constexprSearchMatch m first1 (it1 + text.length) (it2 + pat.length) it1 it2 =
      some (if pat <+: text then some first1
        else if text <+: pat then some (it1 + text.length) else none) := by
  induction text generalizing it1 it2 pat with
  | nil => exact absurd rfl hne'
  | cons c text ih =>
    cases pat with
    | nil => exact absurd rfl hne
    | cons d pat =>
      rw [constexprSearchMatch_step htext.read_head hpat.read_head,
        Pointer.add_length_cons it1, Pointer.add_length_cons it2]
      by_cases hcd : c = d
      · subst hcd
        simp only [if_true, List.cons_prefix_cons, true_and]
        by_cases hend2 : pat = []
        · subst hend2
          simp
        · rw [if_neg ((it2 + 1).ne_add (List.length_pos_iff.mpr hend2))]
          by_cases hend1 : text = []
          · subst hend1
            simp [hend2]
          · rw [if_neg ((it1 + 1).ne_add (List.length_pos_iff.mpr hend1)),
              ih htext.tail hpat.tail hend2 hend1]
      · simp [hcd, Ne.symm hcd]

/-- The outer loop returns the first occurrence of a nonempty pattern. The early
exit loses nothing: a text that starts the pattern is shorter than it. -/
theorem constexprSearchFrom_eq {first1 first2 : Pointer} {text pat : List α}
    (htext : m.HoldsAt first1 text) (hpat : m.HoldsAt first2 pat) (hne : pat ≠ []) :
    constexprSearchFrom m first1 (first1 + text.length) first2 (first2 + pat.length) =
      some (match findFirst pat text with
        | some k => first1 + k
        | none => first1 + text.length) := by
  induction text generalizing first1 with
  | nil =>
    rw [constexprSearchFrom, if_pos (by simp), findFirst, if_neg hne]
  | cons c text ih =>
    have hmatch : constexprSearchMatch m first1 _ _ first1 first2 = _ :=
      constexprSearchMatch_eq htext hpat hne (List.cons_ne_nil c text)
    have hlast : first1 ≠ first1 + (c :: text).length :=
      first1.ne_add (List.length_pos_iff.mpr (List.cons_ne_nil c text))
    rw [constexprSearchFrom_step hlast, hmatch]
    by_cases hhere : pat <+: c :: text
    · simp [findFirst, hhere]
    · by_cases hshort : c :: text <+: pat
      · have hnone : findFirst pat (c :: text) = none := by
          rw [findFirst_eq_none]
          intro k hocc
          have hle := hocc.add_length_le hne
          have hge := hshort.length_le
          have hk : k = 0 := by omega
          subst hk
          exact hhere hocc
        rw [if_neg hhere, if_pos hshort, hnone]
      · rw [if_neg hhere, if_neg hshort, findFirst, if_neg hhere, Pointer.add_length_cons]
        simp only [ih htext.tail]
        cases findFirst pat text with
        | none => rfl
        | some k => simp [Nat.add_comm]

/-- `constexpr_search` on ranges held by memory: every read succeeds, and the
result is the first occurrence of the pattern or the end of the text. -/
theorem constexprSearch_eq {first1 first2 : Pointer} {text pat : List α}
    (htext : m.HoldsAt first1 text) (hpat : m.HoldsAt first2 pat) :
    constexprSearch m first1 (first1 + text.length) first2 (first2 + pat.length) =
      some (match findFirst pat text with
        | some k => first1 + k
        | none => first1 + text.length) := by
  by_cases hne : pat = []
  · subst hne
    simp [constexprSearch]
  · rw [constexprSearch, if_neg (first2.ne_add (List.length_pos_iff.mpr hne)),
      constexprSearchFrom_eq htext hpat hne]

end Spec

/-! ## The positions read -/

/-- The pairs of positions that the inner loop dereferences from one start. -/
def constexprSearchMatchReads (m : Memory α) (last1 last2 it1 it2 : Pointer) :
    List (Pointer × Pointer) :=
  (it1, it2) ::
    match _h : m.read it1, m.read it2 with
    | some c1, some c2 =>
      if c1 = c2 then
        if it2 + 1 = last2 then []
        else if it1 + 1 = last1 then []
        else constexprSearchMatchReads m last1 last2 (it1 + 1) (it2 + 1)
      else []
    | _, _ => []
termination_by (m.after it1).length
decreasing_by exact Memory.after_add_one_length_lt _h

/-- The pairs of positions that the outer loop dereferences. -/
def constexprSearchFromReads (m : Memory α) (first1 last1 first2 last2 : Pointer) :
    List (Pointer × Pointer) :=
  if first1 = last1 then []
  else
    constexprSearchMatchReads m last1 last2 first1 first2 ++
      match _h : constexprSearchMatch m first1 last1 last2 first1 first2 with
      | some none => constexprSearchFromReads m (first1 + 1) last1 first2 last2
      | _ => []
termination_by (m.after first1).length
decreasing_by
  obtain ⟨c, hc⟩ := read_of_constexprSearchMatch _h
  exact Memory.after_add_one_length_lt hc

/-- The pairs of positions that `constexpr_search` dereferences, in order. -/
def constexprSearchReads (m : Memory α) (first1 last1 first2 last2 : Pointer) :
    List (Pointer × Pointer) :=
  if first2 = last2 then []
  else constexprSearchFromReads m first1 last1 first2 last2

section Reads

variable {m m' : Memory α} {first1 last1 first2 last2 it1 it2 : Pointer} {text pat : List α}

/-- One iteration of the inner loop dereferences its two positions. -/
theorem constexprSearchMatchReads_step {c1 c2 : α} (h1 : m.read it1 = some c1)
    (h2 : m.read it2 = some c2) :
    constexprSearchMatchReads m last1 last2 it1 it2 =
      (it1, it2) ::
        if c1 = c2 then
          if it2 + 1 = last2 then []
          else if it1 + 1 = last1 then []
          else constexprSearchMatchReads m last1 last2 (it1 + 1) (it2 + 1)
        else [] := by
  rw [constexprSearchMatchReads]
  split
  · next hr1 hr2 =>
    rw [h1, Option.some.injEq] at hr1
    rw [h2, Option.some.injEq] at hr2
    rw [hr1, hr2]
  · next hnone => exact absurd h2 (hnone c1 c2 h1)

/-- Two memories agree at the positions of a list of pairs. -/
def AgreeAt (m m' : Memory α) (reads : List (Pointer × Pointer)) : Prop :=
  ∀ p ∈ reads, m'.read p.1 = m.read p.1 ∧ m'.read p.2 = m.read p.2

/-- An iteration of the inner loop without one of its characters has no result. -/
theorem constexprSearchMatch_of_unreadable (h : m.read it1 = none ∨ m.read it2 = none) :
    constexprSearchMatch m first1 last1 last2 it1 it2 = none := by
  rw [constexprSearchMatch]
  split
  · next h1 h2 => rcases h with h | h <;> simp_all
  · rfl

/-- The inner loop depends on the positions it dereferences only. -/
theorem constexprSearchMatch_congr
    (h : AgreeAt m m' (constexprSearchMatchReads m last1 last2 it1 it2)) :
    constexprSearchMatch m' first1 last1 last2 it1 it2 =
      constexprSearchMatch m first1 last1 last2 it1 it2 := by
  induction it1, it2 using constexprSearchMatchReads.induct m with
  | case1 it1 it2 ih =>
    obtain ⟨hread1, hread2⟩ : m'.read it1 = m.read it1 ∧ m'.read it2 = m.read it2 := by
      rw [constexprSearchMatchReads] at h
      exact h (it1, it2) List.mem_cons_self
    cases h1 : m.read it1 with
    | none =>
      rw [constexprSearchMatch_of_unreadable (Or.inl h1),
        constexprSearchMatch_of_unreadable (Or.inl (hread1.trans h1))]
    | some c1 =>
      cases h2 : m.read it2 with
      | none =>
        rw [constexprSearchMatch_of_unreadable (Or.inr h2),
          constexprSearchMatch_of_unreadable (Or.inr (hread2.trans h2))]
      | some c2 =>
        rw [constexprSearchMatchReads_step h1 h2] at h
        rw [constexprSearchMatch_step h1 h2,
          constexprSearchMatch_step (hread1.trans h1) (hread2.trans h2)]
        by_cases hend : c1 = c2 ∧ it2 + 1 ≠ last2 ∧ it1 + 1 ≠ last1
        · obtain ⟨heq, hlast2, hlast1⟩ := hend
          rw [if_pos heq, if_neg hlast2, if_neg hlast1] at h ⊢
          rw [if_pos heq, if_neg hlast2, if_neg hlast1]
          exact ih c1 h1 fun p hp => h p (List.mem_cons_of_mem _ hp)
        · split_ifs with heq hlast2 hlast1
          · rfl
          · rfl
          · exact absurd ⟨heq, hlast2, hlast1⟩ hend
          · rfl

/-- One iteration of the outer loop dereferences what the inner loop does, and goes on
after a mismatch. -/
theorem constexprSearchFromReads_step (hne : first1 ≠ last1) :
    constexprSearchFromReads m first1 last1 first2 last2 =
      constexprSearchMatchReads m last1 last2 first1 first2 ++
        match constexprSearchMatch m first1 last1 last2 first1 first2 with
        | some none => constexprSearchFromReads m (first1 + 1) last1 first2 last2
        | _ => [] := by
  rw [constexprSearchFromReads, if_neg hne]
  congr 1
  split <;> simp_all

/-- The outer loop depends on the positions it dereferences only. -/
theorem constexprSearchFrom_congr
    (h : AgreeAt m m' (constexprSearchFromReads m first1 last1 first2 last2)) :
    constexprSearchFrom m' first1 last1 first2 last2 =
      constexprSearchFrom m first1 last1 first2 last2 := by
  induction first1 using constexprSearchFromReads.induct m last1 first2 last2 with
  | case1 =>
    rw [constexprSearchFrom, if_pos rfl]
    rw [constexprSearchFrom, if_pos rfl]
  | case2 first1 hne ih =>
    rw [constexprSearchFromReads_step hne] at h
    have hmatch : constexprSearchMatch m' first1 last1 last2 first1 first2 =
        constexprSearchMatch m first1 last1 last2 first1 first2 :=
      constexprSearchMatch_congr fun p hp => h p (List.mem_append_left _ hp)
    rw [constexprSearchFrom_step hne, constexprSearchFrom_step hne, hmatch]
    cases hresult : constexprSearchMatch m first1 last1 last2 first1 first2 with
    | none => rfl
    | some result =>
      cases result with
      | some result => rfl
      | none =>
        rw [hresult] at h
        exact ih hresult fun p hp => h p (List.mem_append_right _ hp)

/-- `constexpr_search` depends on the positions it dereferences only. -/
theorem constexprSearch_congr
    (h : AgreeAt m m' (constexprSearchReads m first1 last1 first2 last2)) :
    constexprSearch m' first1 last1 first2 last2 = constexprSearch m first1 last1 first2 last2 := by
  rw [constexprSearchReads] at h
  rw [constexprSearch, constexprSearch]
  split_ifs with hempty
  · rfl
  · rw [if_neg hempty] at h
    exact constexprSearchFrom_congr h

/-- On ranges held by memory the inner loop dereferences positions inside them. -/
theorem mem_constexprSearchMatchReads (htext : m.HoldsAt it1 text) (hpat : m.HoldsAt it2 pat)
    (hne : text ≠ []) (hne' : pat ≠ []) {p : Pointer × Pointer}
    (hp : p ∈ constexprSearchMatchReads m (it1 + text.length) (it2 + pat.length) it1 it2) :
    (∃ i < text.length, p.1 = it1 + i) ∧ ∃ j < pat.length, p.2 = it2 + j := by
  induction text generalizing it1 it2 pat with
  | nil => exact absurd rfl hne
  | cons c text ih =>
    cases pat with
    | nil => exact absurd rfl hne'
    | cons d pat =>
      rw [constexprSearchMatchReads_step htext.read_head hpat.read_head,
        Pointer.add_length_cons it1, Pointer.add_length_cons it2, List.mem_cons] at hp
      rcases hp with rfl | hp
      · exact ⟨⟨0, Nat.succ_pos _, rfl⟩, 0, Nat.succ_pos _, rfl⟩
      · split_ifs at hp with heq hend2 hend1
        · exact absurd hp List.not_mem_nil
        · exact absurd hp List.not_mem_nil
        · have hpat' : pat ≠ [] := fun h => hend2 (by simp [h])
          have htext' : text ≠ [] := fun h => hend1 (by simp [h])
          obtain ⟨⟨i, hi, hp1⟩, j, hj, hp2⟩ := ih htext.tail hpat.tail htext' hpat' hp
          refine ⟨⟨1 + i, ?_, by rw [hp1, Pointer.add_add]⟩, 1 + j, ?_,
            by rw [hp2, Pointer.add_add]⟩
          · rw [List.length_cons]
            omega
          · rw [List.length_cons]
            omega
        · exact absurd hp List.not_mem_nil

/-- On ranges held by memory the outer loop dereferences positions inside them. -/
theorem mem_constexprSearchFromReads (htext : m.HoldsAt first1 text) (hpat : m.HoldsAt first2 pat)
    (hne : pat ≠ []) {p : Pointer × Pointer}
    (hp : p ∈ constexprSearchFromReads m first1 (first1 + text.length) first2
      (first2 + pat.length)) :
    (∃ i < text.length, p.1 = first1 + i) ∧ ∃ j < pat.length, p.2 = first2 + j := by
  induction text generalizing first1 with
  | nil =>
    rw [constexprSearchFromReads, if_pos (by simp)] at hp
    exact absurd hp List.not_mem_nil
  | cons c text ih =>
    have hlast : first1 ≠ first1 + (c :: text).length :=
      first1.ne_add (List.length_pos_iff.mpr (List.cons_ne_nil c text))
    rw [constexprSearchFromReads_step hlast, List.mem_append] at hp
    rcases hp with hp | hp
    · exact mem_constexprSearchMatchReads htext hpat (List.cons_ne_nil c text) hne hp
    · split at hp
      · rw [Pointer.add_length_cons] at hp
        obtain ⟨⟨i, hi, hp1⟩, hp2⟩ := ih htext.tail hp
        refine ⟨⟨1 + i, ?_, by rw [hp1, Pointer.add_add]⟩, hp2⟩
        rw [List.length_cons]
        omega
      · exact absurd hp List.not_mem_nil

/-- On ranges held by memory `constexpr_search` dereferences positions inside them. -/
theorem mem_constexprSearchReads (htext : m.HoldsAt first1 text) (hpat : m.HoldsAt first2 pat)
    {p : Pointer × Pointer}
    (hp : p ∈ constexprSearchReads m first1 (first1 + text.length) first2
      (first2 + pat.length)) :
    (∃ i < text.length, p.1 = first1 + i) ∧ ∃ j < pat.length, p.2 = first2 + j := by
  rw [constexprSearchReads] at hp
  split_ifs at hp with hempty
  · exact absurd hp List.not_mem_nil
  · have hne : pat ≠ [] := fun h => hempty (by simp [h])
    exact mem_constexprSearchFromReads htext hpat hne hp

end Reads

/-! ## `std::search` -/

/-- The result that `std::search` specifies for a text and a pattern: the position of
the first occurrence, or the end of the text when there is none. -/
def StdSearch (first1 : Pointer) (text pat : List α) (result : Pointer) : Prop :=
  (∃ k, FirstOccurrence pat text k ∧ result = first1 + k) ∨
    (∀ k, ¬ OccursAt pat text k) ∧ result = first1 + text.length

/-- `constexpr_search` is `std::search` on every two ranges held by memory. It ends with
the specified result, the start of the text for an empty pattern. It dereferences
positions inside the ranges only, and its result depends on no others. -/
theorem constexprSearch_eq_stdSearch {m : Memory α} {first1 first2 : Pointer} {text pat : List α}
    (htext : m.HoldsAt first1 text) (hpat : m.HoldsAt first2 pat) :
    let last1 := first1 + text.length
    let last2 := first2 + pat.length
    (∃ result, constexprSearch m first1 last1 first2 last2 = some result ∧
      StdSearch first1 text pat result ∧ (pat = [] → result = first1)) ∧
    (∀ p ∈ constexprSearchReads m first1 last1 first2 last2,
      (∃ i < text.length, p.1 = first1 + i) ∧ ∃ j < pat.length, p.2 = first2 + j) ∧
    ∀ m', AgreeAt m m' (constexprSearchReads m first1 last1 first2 last2) →
      constexprSearch m' first1 last1 first2 last2 =
        constexprSearch m first1 last1 first2 last2 := by
  intro last1 last2
  refine ⟨⟨_, constexprSearch_eq htext hpat, ?_, ?_⟩,
    fun p hp => mem_constexprSearchReads htext hpat hp, fun m' h => constexprSearch_congr h⟩
  · cases hfind : findFirst pat text with
    | some k => exact Or.inl ⟨k, findFirst_eq_some.mp hfind, rfl⟩
    | none => exact Or.inr ⟨findFirst_eq_none.mp hfind, rfl⟩
  · rintro rfl
    rw [findFirst_nil]
    rfl

/-- A text with a pattern that overlaps itself. -/
def overlapMemory : Memory Bool := fun block =>
  if block = 0 then [true, true, false, true, true, true] else [true, true, true]

/-- The start of the text in this memory. -/
def overlapText : Pointer := ⟨0, 0⟩

/-- The start of the pattern in this memory. -/
def overlapPattern : Pointer := ⟨1, 0⟩

/-- The pattern is found behind a partial match that overlaps it. -/
theorem constexprSearch_eq_stdSearch_overlap :
    let text := [true, true, false, true, true, true]
    let pat := [true, true, true]
    let last1 := overlapText + text.length
    let last2 := overlapPattern + pat.length
    let reads := constexprSearchReads overlapMemory overlapText last1 overlapPattern last2
    (∃ result, constexprSearch overlapMemory overlapText last1 overlapPattern last2 = some result ∧
      StdSearch overlapText text pat result ∧ (pat = [] → result = overlapText)) ∧
    (∀ p ∈ reads, (∃ i < text.length, p.1 = overlapText + i) ∧
      ∃ j < pat.length, p.2 = overlapPattern + j) ∧
    ∀ m', AgreeAt overlapMemory m' reads →
      constexprSearch m' overlapText last1 overlapPattern last2 =
        constexprSearch overlapMemory overlapText last1 overlapPattern last2 :=
  constexprSearch_eq_stdSearch (by decide) (by decide)

end TypeIndex
