import TypeIndex.CMemory.Basic
import Mathlib.Data.List.Lex
import Mathlib.Algebra.Order.Group.Unbundled.Int
import Mathlib.Data.Int.Order.Basic

/-!
# Three-way comparison of terminated strings

A string comparison returns the difference of the keys of the first differing
characters, the terminator included. For an injective key this is the
lexicographic order of the terminated key sequences, hence a linear order on
strings, whatever place the terminator takes among the characters.
-/

namespace CMemory

variable {α : Type*} [Zero α] [DecidableEq α]

/-- The first pair of characters in which two terminated strings differ. -/
def firstDifference : List α → List α → Option (α × α)
  | [], [] => none
  | [], d :: _ => some (0, d)
  | c :: _, [] => some (c, 0)
  | c :: s, d :: t => if c = d then firstDifference s t else some (c, d)

/-- The difference of the keys of the first differing characters. -/
def compareBy (key : α → ℤ) (s t : List α) : ℤ :=
  match firstDifference s t with
  | none => 0
  | some (c, d) => key c - key d

/-- The keys of a string and of its terminator. -/
def terminatedKeys (key : α → ℤ) (s : List α) : List ℤ := (s ++ [0]).map key

omit [DecidableEq α] in
/-- Different strings have different terminated keys. -/
theorem terminatedKeys_injective {key : α → ℤ} (hkey : key.Injective) :
    (terminatedKeys key).Injective := by
  intro s t h
  exact List.append_cancel_right (List.map_injective_iff.mpr hkey h)

/-- A list does not differ from itself. -/
@[simp] theorem firstDifference_self (s : List α) : firstDifference s s = none := by
  induction s with
  | nil => rfl
  | cons c s ih => simp [firstDifference, ih]

/-- Exchanging the strings exchanges the differing characters. -/
theorem firstDifference_swap (s t : List α) :
    firstDifference t s = (firstDifference s t).map Prod.swap := by
  induction s generalizing t with
  | nil => cases t <;> rfl
  | cons c s ih =>
    cases t with
    | nil => rfl
    | cons d t =>
      by_cases hcd : c = d
      · simp [firstDifference, hcd, ih]
      · simp [firstDifference, hcd, Ne.symm hcd]

/-- Strings without inner terminators differ in two different characters. -/
theorem ne_of_firstDifference {s t : List α} (hs : 0 ∉ s) (ht : 0 ∉ t) {c d : α}
    (h : firstDifference s t = some (c, d)) : c ≠ d := by
  induction s generalizing t with
  | nil =>
    cases t with
    | nil => simp [firstDifference] at h
    | cons d' t =>
      simp only [firstDifference, Option.some.injEq, Prod.mk.injEq] at h
      obtain ⟨rfl, rfl⟩ := h
      exact fun h0 => ht (h0 ▸ List.mem_cons_self)
  | cons c' s ih =>
    cases t with
    | nil =>
      simp only [firstDifference, Option.some.injEq, Prod.mk.injEq] at h
      obtain ⟨rfl, rfl⟩ := h
      exact fun h0 => hs (h0 ▸ List.mem_cons_self)
    | cons d' t =>
      by_cases hcd : c' = d'
      · rw [firstDifference, if_pos hcd] at h
        exact ih (fun hm => hs (List.mem_cons_of_mem _ hm))
          (fun hm => ht (List.mem_cons_of_mem _ hm)) h
      · rw [firstDifference, if_neg hcd, Option.some.injEq, Prod.mk.injEq] at h
        obtain ⟨rfl, rfl⟩ := h
        exact hcd

/-- Two strings without a differing character are the same string. -/
theorem firstDifference_eq_none {s t : List α} : firstDifference s t = none ↔ s = t := by
  constructor
  · intro h
    induction s generalizing t with
    | nil =>
      cases t with
      | nil => rfl
      | cons d t => simp [firstDifference] at h
    | cons c s ih =>
      cases t with
      | nil => simp [firstDifference] at h
      | cons d t =>
        by_cases hcd : c = d
        · rw [firstDifference, if_pos hcd] at h
          rw [hcd, ih h]
        · simp [firstDifference, hcd] at h
  · rintro rfl
    exact firstDifference_self s

section Key

variable {key : α → ℤ} {s t u : List α}

/-- A comparison of a list with itself yields zero. -/
@[simp] theorem compareBy_self (key : α → ℤ) (s : List α) : compareBy key s s = 0 := by
  simp [compareBy]

/-- A comparison subtracts the keys of the first characters that differ. -/
theorem compareBy_of_some {c d : α} (h : firstDifference s t = some (c, d)) :
    compareBy key s t = key c - key d := by
  rw [compareBy, h]

/-- Equal leading characters do not decide a comparison. -/
theorem compareBy_cons_of_eq (key : α → ℤ) {c d : α} (h : c = d) (s t : List α) :
    compareBy key (c :: s) (d :: t) = compareBy key s t := by
  simp [compareBy, firstDifference, h]

/-- A comparison is zero exactly on equal strings. -/
theorem compareBy_eq_zero (hkey : key.Injective) (hs : 0 ∉ s) (ht : 0 ∉ t) :
    compareBy key s t = 0 ↔ s = t := by
  constructor
  · intro h
    cases hdiff : firstDifference s t with
    | none => exact firstDifference_eq_none.mp hdiff
    | some pair =>
      obtain ⟨c, d⟩ := pair
      rw [compareBy_of_some hdiff] at h
      have hcd : c = d := hkey (by omega)
      exact absurd hcd (ne_of_firstDifference hs ht hdiff)
  · rintro rfl
    exact compareBy_self key s

/-- A negative comparison is the lexicographic order of the terminated keys. -/
theorem compareBy_neg_iff (hkey : key.Injective) (hs : 0 ∉ s) (ht : 0 ∉ t) :
    compareBy key s t < 0 ↔ terminatedKeys key s < terminatedKeys key t := by
  induction s generalizing t with
  | nil =>
    cases t with
    | nil => simp [compareBy, firstDifference]
    | cons d t =>
      have hd : key 0 ≠ key d := fun h => ht (hkey h ▸ List.mem_cons_self)
      simp only [compareBy, firstDifference, terminatedKeys, List.nil_append, List.map_cons,
        List.map_nil, List.cons_append, List.cons_lt_cons_iff, hd, false_and, or_false]
      omega
  | cons c s ih =>
    cases t with
    | nil =>
      have hc : key c ≠ key 0 := fun h => hs (hkey h ▸ List.mem_cons_self)
      simp only [compareBy, firstDifference, terminatedKeys, List.nil_append, List.map_cons,
        List.map_nil, List.cons_append, List.cons_lt_cons_iff, hc, false_and, or_false]
      omega
    | cons d t =>
      have hrest := ih (t := t) (fun hm => hs (List.mem_cons_of_mem _ hm))
        (fun hm => ht (List.mem_cons_of_mem _ hm))
      simp only [terminatedKeys, List.cons_append, List.map_cons, List.cons_lt_cons_iff] at hrest ⊢
      by_cases hcd : c = d
      · subst hcd
        simpa [compareBy_cons_of_eq] using hrest
      · have hne : key c ≠ key d := fun h => hcd (hkey h)
        have hdiff : firstDifference (c :: s) (d :: t) = some (c, d) := by
          rw [firstDifference, if_neg hcd]
        rw [compareBy_of_some hdiff]
        simp only [hne, false_and, or_false]
        omega

end Key

end CMemory
