import TypeIndex.CMemory.Basic
import Mathlib.Data.Nat.Find

/-!
# Occurrences of a pattern in a text

Positions at which a pattern occurs, the first of them, and how both behave when
the text is continued or cut at a character that the pattern does not contain.
-/

namespace CMemory

variable {α : Type*}

/-- The pattern occurs in the text at a position. -/
def OccursAt (pat text : List α) (k : ℕ) : Prop := pat <+: text.drop k

/-- Comparing with a part of the text decides it. -/
instance [DecidableEq α] (pat text : List α) (k : ℕ) : Decidable (OccursAt pat text k) :=
  inferInstanceAs (Decidable (pat <+: text.drop k))

/-- The pattern occurs at a position and at no earlier one. -/
def FirstOccurrence (pat text : List α) (k : ℕ) : Prop :=
  OccursAt pat text k ∧ ∀ j < k, ¬ OccursAt pat text j

/-- Finitely many earlier positions decide it. -/
instance [DecidableEq α] (pat text : List α) (k : ℕ) : Decidable (FirstOccurrence pat text k) :=
  inferInstanceAs (Decidable (_ ∧ _))

variable {pat text rest : List α} {k : ℕ}

/-- An occurrence of a nonempty pattern lies inside the text. -/
theorem OccursAt.add_length_le (h : OccursAt pat text k) (hpat : pat ≠ []) :
    k + pat.length ≤ text.length := by
  have hle := h.length_le
  rw [List.length_drop] at hle
  have hpos := List.length_pos_iff.mpr hpat
  omega

/-- A pattern occurs behind the text put in front of it. -/
theorem occursAt_append (before pat after : List α) :
    OccursAt pat (before ++ pat ++ after) before.length := by
  rw [OccursAt, List.append_assoc, List.drop_left]
  exact List.prefix_append _ _

/-- An occurrence remains one when the text is continued. -/
theorem OccursAt.append_right (h : OccursAt pat text k) (hk : k ≤ text.length)
    (rest : List α) : OccursAt pat (text ++ rest) k := by
  rw [OccursAt, List.drop_append_of_le_length hk]
  exact List.IsPrefix.trans h (List.prefix_append _ _)

/-- An occurrence in a continued text that ends before the continuation. -/
theorem OccursAt.of_append (h : OccursAt pat (text ++ rest) k)
    (hle : k + pat.length ≤ text.length) : OccursAt pat text k := by
  rw [OccursAt, List.drop_append_of_le_length (by omega)] at h
  exact List.prefix_of_prefix_length_le h (List.prefix_append _ _)
    (by rw [List.length_drop]; omega)

/-- An occurrence at a later position of a continued text. -/
theorem occursAt_append_length (pat before text : List α) (k : ℕ) :
    OccursAt pat (before ++ text) (before.length + k) ↔ OccursAt pat text k := by
  rw [OccursAt, OccursAt, ← List.drop_drop, List.drop_left]

/-- There is one first occurrence only. -/
theorem FirstOccurrence.unique {j : ℕ} (hj : FirstOccurrence pat text j)
    (hk : FirstOccurrence pat text k) : j = k := by
  rcases Nat.lt_trichotomy j k with h | h | h
  · exact absurd hj.1 (hk.2 j h)
  · exact h
  · exact absurd hk.1 (hj.2 k h)

/-- A pattern that occurs has a first occurrence, no later than the given one. -/
theorem OccursAt.exists_first (h : OccursAt pat text k) :
    ∃ j ≤ k, FirstOccurrence pat text j := by
  classical
  have hex : ∃ j, OccursAt pat text j := ⟨k, h⟩
  exact ⟨Nat.find hex, Nat.find_min' hex h, Nat.find_spec hex, fun j hj => Nat.find_min hex hj⟩

/-- Continuing the text does not change the first occurrence. -/
theorem FirstOccurrence.append (h : FirstOccurrence pat text k) (hpat : pat ≠ [])
    (rest : List α) : FirstOccurrence pat (text ++ rest) k := by
  have hle := h.1.add_length_le hpat
  refine ⟨h.1.append_right (by omega) rest, fun j hj hocc => h.2 j hj ?_⟩
  exact hocc.of_append (by omega)

/-! ## A character outside the pattern -/

/-- No occurrence of the pattern contains a character that is not in it. -/
theorem OccursAt.avoids {before after : List α} {c : α}
    (h : OccursAt pat (before ++ c :: after) k) (hc : c ∉ pat) :
    k + pat.length ≤ before.length ∨ before.length < k := by
  by_contra hcross
  rw [not_or, not_le, not_lt] at hcross
  have hget : pat[before.length - k]? = some c := by
    have hread := h.getElem (i := before.length - k) (by omega)
    rw [List.getElem?_eq_getElem (by omega), hread]
    simp [Nat.add_sub_cancel' hcross.2]
  exact hc (List.mem_of_getElem? hget)

/-- A pattern that does not occur before a character outside it is first found
after that character. -/
theorem FirstOccurrence.append_barrier {before after : List α} {c : α}
    (h : FirstOccurrence pat after k) (hc : c ∉ pat) (hbefore : ∀ j, ¬ OccursAt pat before j) :
    FirstOccurrence pat (before ++ c :: after) (before.length + 1 + k) := by
  have hshift : ∀ j, OccursAt pat (before ++ c :: after) (before.length + 1 + j) ↔
      OccursAt pat after j := by
    intro j
    have happend := occursAt_append_length pat (before ++ [c]) after j
    simpa using happend
  refine ⟨(hshift k).mpr h.1, fun j hj hocc => ?_⟩
  rcases hocc.avoids hc with hleft | hright
  · exact hbefore j (hocc.of_append hleft)
  · obtain ⟨i, rfl⟩ : ∃ i, j = before.length + 1 + i := ⟨j - (before.length + 1), by omega⟩
    exact h.2 i (by omega) ((hshift i).mp hocc)

/-- A pattern is first found after a text without the pattern's first character. -/
theorem firstOccurrence_of_not_mem {before after : List α} {c : α} {pat : List α}
    (hc : c ∉ before) :
    FirstOccurrence (c :: pat) (before ++ (c :: pat) ++ after) before.length := by
  refine ⟨occursAt_append _ _ _, fun j hj hocc => hc ?_⟩
  have hread := hocc.getElem (i := 0) (by simp)
  have hget : before[j] = c := by
    simpa [List.getElem_append_left hj] using hread.symm
  exact hget ▸ List.getElem_mem hj

/-- A pattern whose last character it contains only there does not overlap itself: it is
first found behind a text in which it does not occur. -/
theorem firstOccurrence_of_last {before body after : List α} {c : α} (hc : c ∉ body)
    (hbefore : ∀ k, ¬ OccursAt (body ++ [c]) before k) :
    FirstOccurrence (body ++ [c]) (before ++ (body ++ [c]) ++ after) before.length := by
  refine ⟨occursAt_append _ _ _, fun j hj hocc => ?_⟩
  have hlen : (body ++ [c]).length = body.length + 1 := by
    rw [List.length_append, List.length_singleton]
  by_cases hinside : j + (body ++ [c]).length ≤ before.length
  · rw [List.append_assoc] at hocc
    exact hbefore j (hocc.of_append hinside)
  · apply hc
    have hread := List.prefix_iff_getElem?.mp hocc body.length (by omega)
    have hlast : (body ++ [c])[body.length] = c := by simp
    have hin : j + body.length - before.length < body.length := by omega
    rw [hlast, List.getElem?_drop, List.append_assoc, List.getElem?_append_right (by omega),
      List.append_assoc, List.getElem?_append_left hin] at hread
    exact List.mem_of_getElem? hread

/-! ## Texts that start with a cut word -/

/-- A word cut behind its first occurrence of a pattern, a separator and the whole
word again determine the word, whatever the cuts are. Two such texts end in the two
words, so one word ends in the other; its occurrence of the pattern is then an
occurrence in the longer word, which moves the cut less than the lengths require. -/
theorem eq_of_cut_append {a b separator : List α} {i j : ℕ} (hpat : pat ≠ [])
    (ha : FirstOccurrence pat a i) (hb : FirstOccurrence pat b j)
    (h : a.drop (i + pat.length) ++ separator ++ a = b.drop (j + pat.length) ++ separator ++ b) :
    a = b := by
  wlog hle : a.length ≤ b.length generalizing a b i j
  · exact (this hb ha h.symm (by omega)).symm
  have hsuffix : a <:+ b := by
    have hboth : a <:+ b.drop (j + pat.length) ++ separator ++ b := h ▸ List.suffix_append _ _
    exact List.suffix_of_suffix_length_le hboth (List.suffix_append _ _) hle
  obtain ⟨front, rfl⟩ := hsuffix
  have hj : j ≤ front.length + i := by
    by_contra hlt
    exact hb.2 _ (by omega) ((occursAt_append_length pat front a i).mpr ha.1)
  have hlen := congrArg List.length h
  simp only [List.length_append, List.length_drop] at hlen
  have hia := ha.1.add_length_le hpat
  have hjb := hb.1.add_length_le hpat
  rw [List.length_append] at hjb
  have hfront : front.length = 0 := by omega
  rw [List.eq_nil_of_length_eq_zero hfront, List.nil_append]

/-! ## Searching -/

/-- The first position at which the pattern occurs, found by trying each. -/
def findFirst [DecidableEq α] (pat : List α) : List α → Option ℕ
  | [] => if pat = [] then some 0 else none
  | c :: text => if pat <+: c :: text then some 0 else (findFirst pat text).map (· + 1)

/-- An occurrence moves along with a character in front of the text. -/
theorem occursAt_cons_succ (c : α) : OccursAt pat (c :: text) (k + 1) ↔ OccursAt pat text k := by
  rw [OccursAt, OccursAt, List.drop_succ_cons]

/-- The search returns the first occurrence. -/
theorem findFirst_eq_some [DecidableEq α] :
    findFirst pat text = some k ↔ FirstOccurrence pat text k := by
  induction text generalizing k with
  | nil =>
    by_cases hpat : pat = []
    · subst hpat
      have hocc : ∀ j, OccursAt ([] : List α) [] j := fun j => List.nil_prefix
      simp only [findFirst, if_true, Option.some.injEq]
      constructor
      · rintro rfl
        exact ⟨hocc 0, fun j hj => absurd hj (Nat.not_lt_zero j)⟩
      · intro h
        by_contra hk
        exact h.2 0 (by omega) (hocc 0)
    · simp only [findFirst, if_neg hpat, reduceCtorEq, false_iff]
      rintro ⟨hocc, -⟩
      exact hpat (List.prefix_nil.mp (by simpa [OccursAt] using hocc))
  | cons c text ih =>
    by_cases hhere : pat <+: c :: text
    · simp only [findFirst, if_pos hhere, Option.some.injEq]
      constructor
      · rintro rfl
        exact ⟨hhere, fun j hj => absurd hj (Nat.not_lt_zero j)⟩
      · intro h
        by_contra hk
        exact h.2 0 (by omega) hhere
    · rw [findFirst, if_neg hhere]
      cases k with
      | zero =>
        have hmap : (findFirst pat text).map (· + 1) ≠ some 0 := by
          cases findFirst pat text <;> simp
        exact iff_of_false hmap fun h => hhere h.1
      | succ k =>
        have hmap : (findFirst pat text).map (· + 1) = some (k + 1) ↔
            findFirst pat text = some k := by
          cases findFirst pat text <;> simp
        rw [hmap, ih]
        constructor
        · intro h
          refine ⟨(occursAt_cons_succ c).mpr h.1, fun j hj hocc => ?_⟩
          cases j with
          | zero => exact hhere hocc
          | succ j => exact h.2 j (by omega) ((occursAt_cons_succ c).mp hocc)
        · intro h
          exact ⟨(occursAt_cons_succ c).mp h.1,
            fun j hj hocc => h.2 (j + 1) (by omega) ((occursAt_cons_succ c).mpr hocc)⟩

/-- The empty pattern is found at once. -/
@[simp] theorem findFirst_nil [DecidableEq α] (text : List α) : findFirst [] text = some 0 :=
  findFirst_eq_some.mpr ⟨List.nil_prefix, fun j hj => absurd hj (Nat.not_lt_zero j)⟩

/-- The search fails exactly when the pattern occurs nowhere. -/
theorem findFirst_eq_none [DecidableEq α] :
    findFirst pat text = none ↔ ∀ k, ¬ OccursAt pat text k := by
  constructor
  · intro h k hocc
    obtain ⟨j, -, hfirst⟩ := hocc.exists_first
    rw [findFirst_eq_some.mpr hfirst] at h
    cases h
  · intro h
    cases hfind : findFirst pat text with
    | none => rfl
    | some k => exact absurd (findFirst_eq_some.mp hfind).1 (h k)

/-- The first occurrence of a pattern in a terminated string, or null. -/
def strstr [Zero α] [DecidableEq α] (m : Memory α) (p : Pointer) (pat : List α) :
    Option (Option Pointer) :=
  if 0 ∈ m.after p then
    some ((findFirst pat ((m.after p).takeWhile (· ≠ 0))).map fun k => p + k)
  else none

/-- Searching a string found in memory. -/
theorem Memory.StringAt.strstr [Zero α] [DecidableEq α] {m : Memory α} {p : Pointer} {s : List α}
    (h : m.StringAt p s) (pat : List α) :
    strstr m p pat = some ((findFirst pat s).map fun k => p + k) := by
  have hchars : (m.after p).takeWhile (· ≠ 0) = s := Memory.StringAt.chars_eq (v := h.cstr) h
  rw [CMemory.strstr, if_pos h.zero_mem, hchars]

end CMemory
