import TypeIndex.Comparison
import TypeIndex.Identities
import Mathlib.Data.List.Sort

/-!
# Lists of types in a fixed order

A template with a list of types as its argument has an instantiation for each order of
the list. A check at compile time that the types ascend leaves one of these orders: every
list of types can be rearranged so that it passes, and two arrangements that pass differ
in references and top-level qualifiers only.
-/

namespace TypeIndex

open CMemory

section

variable {α : Type*} {m : CharMemory} {Info : Type*}

/-- `is_asc_sorted`: every type of the list is at most the next one. -/
def isAscSorted (F : TypeIndexFacade m (CttiTypeIndex m) (CttiData m)) (K : Toolchain α m Info) :
    List (CppType α) → Bool
  | Lhs :: Rhs :: TN =>
    F.le (CttiTypeIndex.typeId K Lhs) (CttiTypeIndex.typeId K Rhs) && isAscSorted F K (Rhs :: TN)
  | _ => true

variable {F : TypeIndexFacade m (CttiTypeIndex m) (CttiData m)} {K : Toolchain α m Info}
  {Order : Type*} [LinearOrder Order] {key : CttiTypeIndex m → Order}
  {valid : CttiTypeIndex m → Prop}

/-- The check compares neighbours, and thereby all types of the list. -/
theorem isAscSorted_iff (h : F.KeyedBy key valid) (Ts : List (CppType α)) :
    isAscSorted F K Ts = true ↔
      (Ts.map fun T => key (CttiTypeIndex.typeId K T)).Pairwise (· ≤ ·) := by
  rw [← List.isChain_iff_pairwise]
  induction Ts with
  | nil => exact iff_of_true rfl .nil
  | cons Lhs TN ih =>
    cases TN with
    | nil => exact iff_of_true rfl (.singleton _)
    | cons Rhs TN =>
      have hle := h.indexOperator_eq .le (CttiTypeIndex.typeId K Lhs) (CttiTypeIndex.typeId K Rhs)
      rw [isAscSorted, Bool.and_eq_true, ih]
      simp only [List.map_cons]
      rw [List.isChain_cons_cons]
      refine and_congr_left' ?_
      change F.indexOperator .le _ _ = true ↔ _
      rw [hle]
      exact decide_eq_true_iff

/-- Every list of types has an arrangement that passes. -/
theorem exists_isAscSorted (h : F.KeyedBy key valid) (Ts : List (CppType α)) :
    ∃ Us, Us.Perm Ts ∧ isAscSorted F K Us = true := by
  let le (T U : CppType α) : Bool :=
    decide (key (CttiTypeIndex.typeId K T) ≤ key (CttiTypeIndex.typeId K U))
  refine ⟨Ts.mergeSort le, List.mergeSort_perm Ts le, (isAscSorted_iff h _).mpr ?_⟩
  rw [List.pairwise_map]
  refine (List.pairwise_mergeSort ?_ ?_ Ts).imp of_decide_eq_true
  · intro T U V hTU hUV
    exact decide_eq_true ((of_decide_eq_true hTU).trans (of_decide_eq_true hUV))
  · intro T U
    rw [Bool.or_eq_true, decide_eq_true_eq, decide_eq_true_eq]
    exact le_total _ _

/-- Arrangements that pass have the same keys in the same order. -/
theorem isAscSorted_map_eq (h : F.KeyedBy key valid) {Us Vs : List (CppType α)}
    (hperm : Us.Perm Vs) (hUs : isAscSorted F K Us = true) (hVs : isAscSorted F K Vs = true) :
    (Us.map fun T => key (CttiTypeIndex.typeId K T)) =
      Vs.map fun T => key (CttiTypeIndex.typeId K T) := by
  rw [isAscSorted_iff h] at hUs hVs
  exact (hperm.map _).eq_of_pairwise (fun _ _ _ _ => le_antisymm) hUs hVs

end

/-- The check leaves exactly one order of the types, up to references and top-level
qualifiers, and exactly one arrangement of types that differ in more than these. -/
theorem isAscSorted_unique {α : Type*} {m : CharMemory} {Info : Type*} (K : Toolchain α m Info)
    (P : Platform) (path : StrcmpPath) (S : CttiSkip) (hash : List UInt8 → ℕ)
    (printed : CppType α → List UInt8) (hpath : P.ResolvesTo m path)
    (hprinted : K.PrintsDistinct printed) (Ts : List (CppType α)) :
    let sorted := isAscSorted (CttiTypeIndex.facade P S hash) K
    (∃! order, ∃ Us, Us.Perm Ts ∧ sorted Us = true ∧
      Us.map (fun T => T.removeReference.removeCv) = order) ∧
    ((Ts.map fun T => T.removeReference.removeCv).Nodup →
      ∃! Us, Us.Perm Ts ∧ sorted Us = true) := by
  intro sorted
  have hkeyed := CttiTypeIndex.facade_keyedBy (m := m) hpath S hash
  let key (X : CppType α) : List ℤ := terminatedKeys (path.key P.charSign) (K.n X).chars
  have hkey : key.Injective := by
    intro X Y hXY
    have hchars := terminatedKeys_injective (path.key_injective _) hXY
    exact hprinted.injective (hprinted.rawName X Y hchars)
  have hunique : ∀ Us Vs, Us.Perm Ts → Vs.Perm Ts → sorted Us = true → sorted Vs = true →
      Us.map (fun T => T.removeReference.removeCv) =
        Vs.map fun T => T.removeReference.removeCv := by
    intro Us Vs hUs hVs hsorted hsorted'
    have hkeys := isAscSorted_map_eq hkeyed (hUs.trans hVs.symm) hsorted hsorted'
    refine List.map_injective_iff.mpr hkey ?_
    rw [List.map_map, List.map_map]
    exact hkeys
  obtain ⟨Us, hUs, hsorted⟩ := exists_isAscSorted (K := K) hkeyed Ts
  refine ⟨⟨_, ⟨Us, hUs, hsorted, rfl⟩, ?_⟩, fun hnodup => ⟨Us, ⟨hUs, hsorted⟩, ?_⟩⟩
  · rintro _ ⟨Vs, hVs, hsorted', rfl⟩
    exact hunique Vs Us hVs hUs hsorted' hsorted
  · rintro Vs ⟨hVs, hsorted'⟩
    have hsame := (isAscSorted_iff hkeyed Us).mp hsorted
    have hsame' := (isAscSorted_iff hkeyed Vs).mp hsorted'
    rw [List.pairwise_map] at hsame hsame'
    refine (hVs.trans hUs.symm).eq_of_pairwise (fun T U hT hU hTU hUT => ?_) hsame' hsame
    have hstripped := hkey (le_antisymm hTU hUT)
    exact List.inj_on_of_nodup_map hnodup (hVs.mem_iff.mp hT) (hUs.mem_iff.mp hU) hstripped

/-- The check on a pair of types of the toolchain with unary names. -/
theorem isAscSorted_unique_unary :
    let T : CppType Unit := ⟨.other (), true, false, .none⟩
    let U : CppType Unit := ⟨.cvrSaver (.other ()) true false .none, false, false, .lvalue⟩
    let P : Platform := ⟨.signed, default, .constexpr14⟩
    let sorted := isAscSorted (CttiTypeIndex.facade P (skip .other ⟨0, 0⟩) List.length)
      unaryToolchain
    (∃! order, ∃ Us, Us.Perm [T, U] ∧ sorted Us = true ∧
      Us.map (fun T => T.removeReference.removeCv) = order) ∧
    (([T, U].map fun T => T.removeReference.removeCv).Nodup →
      ∃! Us, Us.Perm [T, U] ∧ sorted Us = true) :=
  isAscSorted_unique unaryToolchain ⟨.signed, default, .constexpr14⟩ .loop (skip .other ⟨0, 0⟩)
    List.length _ (fun _ _ => rfl) unaryToolchain_printsDistinct _

end TypeIndex
