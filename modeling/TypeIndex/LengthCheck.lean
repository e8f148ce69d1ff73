import TypeIndex.CttiTypeIndex

/-!
# The compile-time length check

`skip_begining` asserts that a signature is longer than the skipped begin and end
together. It counts the terminator and knows nothing of the search for the marker, so
that a signature may pass with no name left, or with an end longer than what is left.
The reads at run time stay inside the raw name exactly when a name is left in front of
the skipped end.
-/

namespace TypeIndex

open CMemory

/-- What is left of a signature's array behind the skipped begin and, where the marker
occurs there, behind its first occurrence. The terminator counts. -/
def leftOver (sizeAtBegin : ℕ) (marker array : List UInt8) : List UInt8 :=
  match findFirst marker (array.drop sizeAtBegin) with
  | some k => (array.drop sizeAtBegin).drop (k + marker.length)
  | none => array.drop sizeAtBegin

/-- A name is left in front of the skipped end: the end fits into what is left, and the
characters before it are not all spaces. -/
def NameLeft (S : CttiSkip) (marker text : List UInt8) : Prop :=
  let left := leftOver S.sizeAtBegin marker (text ++ [0])
  S.sizeAtEnd < left.length ∧ ∃ c ∈ left.take (left.length - 1 - S.sizeAtEnd), c ≠ space

/-- The reads of `pretty_name` and `hash_code` stay inside the raw name. Where an array
ends with the raw name's terminator, a read behind it has no result, and neither has
an index below zero. -/
structure CttiTypeIndex.ReadsInside {m : CharMemory} (S : CttiSkip) (hash : List UInt8 → ℕ)
    (index : CttiTypeIndex m) : Prop where
  /-- `get_raw_name_length` starts at the terminator or before it. -/
  strlen_start : S.sizeAtEnd ≤ index.rawName.chars.length
  /-- `pretty_name` has a result. -/
  prettyName : ∃ name, index.prettyName S = some name
  /-- `hash_code` has a result. -/
  hashCode : ∃ code, index.hashCode S hash = some code

section Reads

variable {m : CharMemory} {S : CttiSkip} {signature start p : Pointer}
  {text marker name : List UInt8}

/-- The loop over trailing spaces stops inside a name with another character. -/
theorem exists_trimTrailingSpaces_iff (h : m.HoldsAt p name) :
    (∃ len, trimTrailingSpaces m p name.length = some len) ↔ ∃ c ∈ name, c ≠ space := by
  induction name using List.reverseRecOn with
  | nil => simp [trimTrailingSpaces]
  | append_singleton name c ih =>
    have hread : m.read (p + name.length) = some c := h.add.read_head
    rw [List.length_append, List.length_singleton, trimTrailingSpaces, hread]
    by_cases hc : c = space
    · have hprefix : m.HoldsAt p name := (List.prefix_append _ _).trans h
      have hspace : (∃ d ∈ name ++ [c], d ≠ space) ↔ ∃ d ∈ name, d ≠ space := by simp [hc]
      rw [hspace, ← ih hprefix]
      simp only [Option.bind_eq_bind, Option.bind_some, if_pos hc]
    · simp only [Option.bind_eq_bind, Option.bind_some, if_neg hc]
      exact iff_of_true ⟨_, rfl⟩ ⟨c, by simp, hc⟩

/-- The loop over trailing spaces only shortens. -/
theorem trimTrailingSpaces_le {n len : ℕ} (h : trimTrailingSpaces m p n = some len) :
    len ≤ n := by
  induction n with
  | zero => simp [trimTrailingSpaces] at h
  | succ n ih =>
    rw [trimTrailingSpaces] at h
    obtain ⟨c, -, h⟩ := Option.bind_eq_some_iff.mp h
    split_ifs at h
    · have hle := ih h
      omega
    · cases h
      exact Nat.le_refl _

/-- The reads from a raw name stay inside exactly when the end fits into it and a
character in front of the end is no space. -/
theorem CttiTypeIndex.readsInside_iff {self : CttiTypeIndex m} (hash : List UInt8 → ℕ)
    (h : m.StringAt self.rawName.ptr name) :
    self.ReadsInside S hash ↔ S.sizeAtEnd ≤ name.length ∧
      ∃ c ∈ name.take (name.length - S.sizeAtEnd), c ≠ space := by
  have hchars : self.rawName.chars = name := h.chars_eq
  by_cases hfits : S.sizeAtEnd ≤ name.length
  · have hcut := h
    rw [← List.take_append_drop (name.length - S.sizeAtEnd) name] at hcut
    have hpost : (name.drop (name.length - S.sizeAtEnd)).length = S.sizeAtEnd := by
      rw [List.length_drop]
      omega
    have hholds := CttiTypeIndex.holdsAt_rawName hcut
    rw [← exists_trimTrailingSpaces_iff hholds, and_iff_right hfits]
    constructor
    · intro hinside
      obtain ⟨shown, hshown⟩ := hinside.prettyName
      rw [CttiTypeIndex.prettyName, CttiTypeIndex.getRawNameLength_eq hcut hpost] at hshown
      simp only [Option.bind_eq_bind, Option.bind_some] at hshown
      obtain ⟨len, hlen, -⟩ := Option.bind_eq_some_iff.mp hshown
      exact ⟨len, hlen⟩
    · rintro ⟨len, hlen⟩
      refine ⟨hchars ▸ hfits, ?_, _, CttiTypeIndex.hashCode_eq hcut hpost hash⟩
      have hle := trimTrailingSpaces_le hlen
      have hrun : m.HoldsAt self.rawName.ptr
          ((name.take (name.length - S.sizeAtEnd)).take len) :=
        (List.take_prefix _ _).trans hholds
      have hread := hrun.readRun
      rw [List.length_take_of_le hle] at hread
      refine ⟨(name.take (name.length - S.sizeAtEnd)).take len, ?_⟩
      rw [CttiTypeIndex.prettyName, CttiTypeIndex.getRawNameLength_eq hcut hpost]
      simp only [Option.bind_eq_bind, Option.bind_some, hlen]
      exact hread
  · exact iff_of_false (fun hinside => hfits (hchars ▸ hinside.strlen_start))
      fun hleft => hfits hleft.1

/-! ## Where the raw name starts -/

/-- What is left of an array is its end. -/
theorem leftOver_suffix (sizeAtBegin : ℕ) (marker array : List UInt8) :
    leftOver sizeAtBegin marker array <:+ array := by
  unfold leftOver
  cases findFirst marker (array.drop sizeAtBegin) with
  | none => exact List.drop_suffix _ _
  | some k => exact (List.drop_suffix _ _).trans (List.drop_suffix _ _)

/-- The search in an exhausted array has no result or ends where it started. -/
theorem constexprSearch_of_after_nil {first1 last1 first2 last2 it : Pointer}
    (h : m.after first1 = []) (hit : constexprSearch m first1 last1 first2 last2 = some it) :
    it = first1 := by
  have hread : m.read first1 = none := by
    rw [Memory.read_eq, h]
    rfl
  rw [constexprSearch] at hit
  split_ifs at hit with hempty
  · exact (Option.some.inj hit).symm
  · by_cases hlast : first1 = last1
    · rw [constexprSearchFrom, if_pos hlast] at hit
      exact (Option.some.inj hit).symm.trans hlast.symm
    · rw [constexprSearchFrom_step hlast,
        constexprSearchMatch_of_unreadable (Or.inl hread)] at hit
      cases hit

/-- Behind the end of its array a signature has nothing left. -/
theorem leftOver_of_le {sizeAtBegin : ℕ} {array : List UInt8} (h : array.length ≤ sizeAtBegin) :
    leftOver sizeAtBegin marker array = [] := by
  have hdrop : array.drop sizeAtBegin = [] := List.drop_eq_nil_of_le h
  unfold leftOver
  rw [hdrop]
  cases findFirst marker [] with
  | none => rfl
  | some k => exact List.drop_nil

/-- What is left can be read where the search ends. -/
theorem skipBeginingRuntime_leftOver {body : List UInt8} (hbody : m.after start = body)
    (hmarker : m.HoldsAt S.untilRuntime marker) (hlen : S.untilRuntimeLength = marker.length)
    (hne : marker ≠ []) :
    ∃ it, skipBeginingRuntime S m body.length start = some it ∧
      m.after it = leftOver 0 marker body := by
  have hholds : m.HoldsAt start body := hbody ▸ List.prefix_refl _
  refine ⟨_, skipBeginingRuntime_eq hholds hmarker hlen hne, ?_⟩
  unfold leftOver
  rw [List.drop_zero]
  cases findFirst marker body with
  | none => exact hbody
  | some k =>
    change m.after (start + (k + marker.length)) = body.drop (k + marker.length)
    rw [Memory.after_add, hbody]

/-- A signature whose begin fits into its array is searched inside the array. -/
theorem cttiN_of_begin_le (harray : m.after signature = text ++ [0])
    (hmarker : m.HoldsAt S.untilRuntime marker) (hlen : S.untilRuntimeLength = marker.length)
    (hcheck : assertCompileTimeLegths S (text.length + 1) = true)
    (hbegin : S.sizeAtBegin ≤ text.length) :
    ∃ start, cttiN S m signature text.length = some start ∧
      m.after start = leftOver S.sizeAtBegin marker (text ++ [0]) := by
  have hbody : m.after (signature + S.sizeAtBegin) = (text ++ [0]).drop S.sizeAtBegin := by
    rw [Memory.after_add, harray]
  have hsize : sizeSub (text.length + 1) S.sizeAtBegin =
      ((text ++ [0]).drop S.sizeAtBegin).length := by
    rw [sizeSub_of_le (by omega), List.length_drop, List.length_append, List.length_singleton]
  rw [cttiN, skipBegining, if_pos hcheck]
  by_cases hne : marker = []
  · subst hne
    refine ⟨_, if_neg (by simp [hlen]), ?_⟩
    rw [hbody, leftOver, findFirst_nil]
    rfl
  · rw [if_pos (by rw [hlen]; exact (List.length_pos_iff.mpr hne).ne'), hsize]
    obtain ⟨it, hit, hafter⟩ := skipBeginingRuntime_leftOver hbody hmarker hlen hne
    refine ⟨it, hit, hafter.trans ?_⟩
    unfold leftOver
    rw [List.drop_zero]

/-- A signature whose begin exceeds its array leads outside of it. The check accepts it
only where the sum of the skips wraps around. -/
theorem after_cttiN_of_lt_begin (harray : m.after signature = text ++ [0])
    (hbegin : text.length < S.sizeAtBegin)
    (hstart : cttiN S m signature text.length = some start) : m.after start = [] := by
  have hbody : m.after (signature + S.sizeAtBegin) = [] := by
    rw [Memory.after_add, harray]
    apply List.drop_eq_nil_of_le
    rw [List.length_append, List.length_singleton]
    omega
  rw [cttiN, skipBegining] at hstart
  split_ifs at hstart with hcheck hsearch
  · rw [skipBeginingRuntime] at hstart
    obtain ⟨it, hit, hstart⟩ := Option.bind_eq_some_iff.mp hstart
    rw [constexprSearch_of_after_nil hbody hit] at hstart
    cases hstart
    split_ifs
    · exact hbody
    · rw [Memory.after_add, hbody, List.drop_nil]
  · cases hstart
    exact hbody

/-- Whether or not the begin fits, what can be read where `n()` starts is what is left. -/
theorem after_cttiN (harray : m.after signature = text ++ [0])
    (hmarker : m.HoldsAt S.untilRuntime marker) (hlen : S.untilRuntimeLength = marker.length)
    (hcheck : assertCompileTimeLegths S (text.length + 1) = true)
    (hstart : cttiN S m signature text.length = some start) :
    m.after start = leftOver S.sizeAtBegin marker (text ++ [0]) := by
  by_cases hbegin : S.sizeAtBegin ≤ text.length
  · obtain ⟨start', hstart', hafter⟩ := cttiN_of_begin_le harray hmarker hlen hcheck hbegin
    rwa [Option.some.inj (hstart.symm.trans hstart')]
  · rw [after_cttiN_of_lt_begin harray (not_le.mp hbegin) hstart, leftOver_of_le]
    rw [List.length_append, List.length_singleton]
    omega

/-- What is left ends with the terminator, unless nothing is. -/
theorem exists_name_of_suffix {left : List UInt8} (htext : 0 ∉ text) (hleft : left ≠ [])
    (hsuffix : left <:+ text ++ [0]) : ∃ name, left = name ++ [0] ∧ 0 ∉ name := by
  obtain ⟨name, c, rfl⟩ := (List.eq_nil_or_concat' left).resolve_left hleft
  obtain ⟨front, hfront⟩ := hsuffix
  rw [← List.append_assoc] at hfront
  obtain ⟨hname, hc⟩ := List.append_inj' hfront rfl
  refine ⟨name, by rw [hc], fun h => htext ?_⟩
  rw [← hname]
  exact List.mem_append_right _ h

/-- A name is left exactly when the end fits into the raw name and a character in front
of the end is no space. -/
theorem nameLeft_iff (h : leftOver S.sizeAtBegin marker (text ++ [0]) = name ++ [0]) :
    NameLeft S marker text ↔ S.sizeAtEnd ≤ name.length ∧
      ∃ c ∈ name.take (name.length - S.sizeAtEnd), c ≠ space := by
  have hlength : (name ++ [0]).length = name.length + 1 := by
    rw [List.length_append, List.length_singleton]
  have htake : (name ++ [0]).take (name.length + 1 - 1 - S.sizeAtEnd) =
      name.take (name.length - S.sizeAtEnd) :=
    List.take_append_of_le_length (by omega)
  unfold NameLeft
  simp only [h, hlength, htake, Nat.lt_succ_iff]

end Reads

/-- The compile-time check is a sufficient guard for the reads at run time exactly when
a name is left in front of the skipped end: of a signature that passes it, `n()` then
cuts out a terminated raw name, and `pretty_name` and `hash_code` read nothing outside
of it. -/
theorem lengthCheck_guards_iff {m : CharMemory} {S : CttiSkip} {signature : Pointer}
    {text marker : List UInt8} (hash : List UInt8 → ℕ) (htext : 0 ∉ text)
    (harray : m.after signature = text ++ [0]) (hmarker : m.HoldsAt S.untilRuntime marker)
    (hlen : S.untilRuntimeLength = marker.length)
    (hcheck : assertCompileTimeLegths S (text.length + 1) = true) :
    (∃ index : CttiTypeIndex m, cttiN S m signature text.length = some index.rawName.ptr ∧
      index.ReadsInside S hash) ↔ NameLeft S marker text := by
  constructor
  · rintro ⟨index, hstart, hinside⟩
    have hafter := after_cttiN harray hmarker hlen hcheck hstart
    have hleft : leftOver S.sizeAtBegin marker (text ++ [0]) ≠ [] := by
      rw [← hafter]
      exact index.rawName.after_ne_nil
    obtain ⟨name, hname, hzero⟩ := exists_name_of_suffix htext hleft (leftOver_suffix _ _ _)
    have hraw : m.StringAt index.rawName.ptr name := by
      refine ⟨hzero, ?_⟩
      rw [Memory.HoldsAt, hafter, hname]
    rw [nameLeft_iff hname]
    exact (CttiTypeIndex.readsInside_iff hash hraw).mp hinside
  · intro hname
    have hleft : leftOver S.sizeAtBegin marker (text ++ [0]) ≠ [] := by
      intro hnil
      have hlt := hname.1
      rw [hnil] at hlt
      exact absurd hlt (Nat.not_lt_zero _)
    have hbegin : S.sizeAtBegin ≤ text.length := by
      by_contra hlt
      apply hleft
      apply leftOver_of_le
      rw [List.length_append, List.length_singleton]
      omega
    obtain ⟨start, hstart, hafter⟩ := cttiN_of_begin_le harray hmarker hlen hcheck hbegin
    obtain ⟨name, hsplit, hzero⟩ := exists_name_of_suffix htext hleft (leftOver_suffix _ _ _)
    have hraw : m.StringAt start name := by
      refine ⟨hzero, ?_⟩
      rw [Memory.HoldsAt, hafter, hsplit]
    rw [nameLeft_iff hsplit] at hname
    exact ⟨⟨hraw.cstr⟩, hstart, (CttiTypeIndex.readsInside_iff hash hraw).mpr hname⟩

/-- The documentation's configuration, on its example. -/
theorem lengthCheck_guards_iff_documented :
    let text := literal "static const char *boost::detail::ctti<int>::n() [T = int]"
    let S := makeCttiSkip 39 1 true ⟨1, 0⟩ 5
    (∃ index : CttiTypeIndex documentedMemory,
      cttiN S documentedMemory ⟨0, 0⟩ text.length = some index.rawName.ptr ∧
        index.ReadsInside S List.length) ↔ NameLeft S (literal "T = ") text :=
  lengthCheck_guards_iff List.length (by decide) (by decide) (by decide) rfl (by decide)

/-- With an end of 19 characters the example passes the check although no name is left:
`pretty_name` looks for a trailing space in front of the raw name. -/
theorem not_readsInside_documented :
    let S := makeCttiSkip 39 19 false ⟨1, 4⟩ 1
    documentedMemory.after ⟨0, 0⟩ =
        literal "static const char *boost::detail::ctti<int>::n() [T = int]" ++ [0] ∧
      assertCompileTimeLegths S (58 + 1) = true ∧
      ¬ ∃ index : CttiTypeIndex documentedMemory,
        cttiN S documentedMemory ⟨0, 0⟩ 58 = some index.rawName.ptr ∧
          index.ReadsInside S List.length := by
  refine ⟨by decide, by decide, ?_⟩
  rintro ⟨index, hstart, hinside⟩
  have hraw : documentedMemory.StringAt index.rawName.ptr (literal "int>::n() [T = int]") := by
    have hptr : (⟨0, 39⟩ : Pointer) = index.rawName.ptr := Option.some.inj hstart
    rw [← hptr]
    decide
  obtain ⟨-, c, hc, -⟩ := (CttiTypeIndex.readsInside_iff List.length hraw).mp hinside
  exact absurd hc List.not_mem_nil

end TypeIndex
