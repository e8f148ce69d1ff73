import Mathlib.Tactic.Common

/-!
# Types with top-level qualifiers

`type_id` drops a reference and the top-level `const` and `volatile` of its
argument, while `type_id_with_cvr` keeps them. Only these decorations of a type
matter here, so every other type is an opaque atom, apart from the specialisations
of `detail::cvr_saver`, which the library introduces itself.
-/

namespace TypeIndex

/-- The reference part of a type. -/
inductive Reference
  | none
  | lvalue
  | rvalue
  deriving DecidableEq, Repr

/-- A type without reference and top-level qualifiers. A specialisation of
`detail::cvr_saver` carries the type it saves. -/
inductive CoreType (α : Type*)
  | other (type : α)
  | cvrSaver (core : CoreType α) (constQualified volatileQualified : Bool) (reference : Reference)
  deriving DecidableEq, Repr

/-- A type. The qualifiers of a reference type are those of the type referred to. -/
structure CppType (α : Type*) where
  /-- The type under reference and qualifiers. -/
  core : CoreType α
  /-- Whether the core is `const`. -/
  constQualified : Bool
  /-- Whether the core is `volatile`. -/
  volatileQualified : Bool
  /-- The reference around the qualified core. -/
  reference : Reference
  deriving DecidableEq, Repr

namespace CppType

variable {α : Type*}

/-- `std::is_reference`. -/
def isReference (T : CppType α) : Bool := decide (T.reference ≠ .none)

/-- `std::is_const`. A reference is never `const` itself. -/
def isConst (T : CppType α) : Bool := !T.isReference && T.constQualified

/-- `std::is_volatile`. -/
def isVolatile (T : CppType α) : Bool := !T.isReference && T.volatileQualified

/-- `std::remove_reference`. -/
def removeReference (T : CppType α) : CppType α := { T with reference := .none }

/-- `std::remove_cv`. It does not look behind a reference. -/
def removeCv (T : CppType α) : CppType α :=
  if T.isReference then T else { T with constQualified := false, volatileQualified := false }

/-- The class `detail::cvr_saver<T>`. -/
def cvrSaver (T : CppType α) : CppType α where
  core := .cvrSaver T.core T.constQualified T.volatileQualified T.reference
  constQualified := false
  volatileQualified := false
  reference := .none

/-- Whether the type has a reference or top-level qualifiers. -/
def isQualified (T : CppType α) : Bool := T.isReference || T.isConst || T.isVolatile

/-- The type is no specialisation of `detail::cvr_saver`, whatever its qualifiers. -/
def NotSaver (T : CppType α) : Prop := ∃ type, T.core = .other type

/-- Dropping the reference and then the qualifiers leaves the core. -/
theorem removeCv_removeReference (T : CppType α) :
    T.removeReference.removeCv = ⟨T.core, false, false, .none⟩ := rfl

/-- A type without reference and qualifiers is determined by its core. -/
theorem isQualified_eq_false {T : CppType α} :
    T.isQualified = false ↔ T = ⟨T.core, false, false, .none⟩ := by
  obtain ⟨core, constQualified, volatileQualified, reference⟩ := T
  cases reference <;> cases constQualified <;> cases volatileQualified <;>
    simp [isQualified, isReference, isConst, isVolatile]

/-- The specialisation of `detail::cvr_saver` determines the type it saves. -/
theorem cvrSaver_injective : (cvrSaver : CppType α → CppType α).Injective := by
  rintro ⟨core, constQualified, volatileQualified, reference⟩ ⟨core', c', v', r'⟩ h
  simp only [cvrSaver, mk.injEq, CoreType.cvrSaver.injEq, and_true] at h
  obtain ⟨rfl, rfl, rfl, rfl⟩ := h
  rfl

/-- A type is never saved in its own core. -/
theorem cvrSaver_core_ne (T : CppType α) : T.cvrSaver.core ≠ T.core := by
  intro h
  have hsize := congrArg sizeOf h
  simp only [cvrSaver, CoreType.cvrSaver.sizeOf_spec] at hsize
  omega

/-- The type that `stl_type_index::type_id_with_cvr` passes to `typeid`. -/
def saved (T : CppType α) : CppType α := if T.isQualified then T.cvrSaver else T

/-- The saved type has no reference and no qualifiers, so `typeid` drops nothing. -/
theorem saved_eq_core (T : CppType α) : T.saved = ⟨T.saved.core, false, false, .none⟩ := by
  unfold saved
  cases h : T.isQualified with
  | true => rfl
  | false => exact isQualified_eq_false.mp h

/-- Saving keeps types apart, specialisations of `detail::cvr_saver` excluded. -/
theorem saved_inj {T1 T2 : CppType α} (h1 : T1.NotSaver) (h2 : T2.NotSaver) :
    T1.saved = T2.saved ↔ T1 = T2 := by
  refine ⟨fun h => ?_, congrArg saved⟩
  obtain ⟨type1, hcore1⟩ := h1
  obtain ⟨type2, hcore2⟩ := h2
  unfold saved at h
  cases hq1 : T1.isQualified with
  | true =>
    cases hq2 : T2.isQualified with
    | true =>
      rw [hq1, hq2] at h
      exact cvrSaver_injective h
    | false =>
      rw [hq1, hq2] at h
      have hcore := congrArg core h
      simp [cvrSaver, hcore2] at hcore
  | false =>
    cases hq2 : T2.isQualified with
    | true =>
      rw [hq1, hq2] at h
      have hcore := congrArg core h
      simp [cvrSaver, hcore1] at hcore
    | false =>
      rw [hq1, hq2] at h
      exact h

/-- The saved type has the core of the type exactly when nothing was saved. -/
theorem saved_core_eq (T : CppType α) : T.saved.core = T.core ↔ T.isQualified = false := by
  unfold saved
  cases T.isQualified with
  | true => simpa using T.cvrSaver_core_ne
  | false => simp

end CppType

end TypeIndex
