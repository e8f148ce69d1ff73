import TypeIndex.Identities

/-!
# Functions behind an erased pointer

A function whose type is erased remembers its parameter's exact type as an index, and a
call compares that index with the type of the argument before the pointer is used as one
to a function of this type. With raw names from the compiler the comparison is exact.
The index over `std::type_info` confuses a type with the class that saves it.
-/

namespace TypeIndex

open CMemory

variable {α : Type*}

/-! ## Types that are saved alike -/

namespace CppType

/-- Different types are saved alike exactly when one of them has a reference or qualifiers
and the other is the class that saves it. -/
theorem saved_eq_iff {T U : CppType α} : T.saved = U.saved ↔ T = U ∨
    (T.isQualified = true ∧ U = T.cvrSaver) ∨ (U.isQualified = true ∧ T = U.cvrSaver) := by
  unfold saved
  cases hT : T.isQualified with
  | true =>
    cases hU : U.isQualified with
    | true =>
      have hT' : T ≠ U.cvrSaver := by
        rintro rfl
        cases hT
      have hU' : U ≠ T.cvrSaver := by
        rintro rfl
        cases hU
      simp [hT', hU', cvrSaver_injective.eq_iff]
    | false =>
      have hne : T ≠ U := by
        rintro rfl
        cases hT.symm.trans hU
      simp [hne, eq_comm]
  | false =>
    cases hU : U.isQualified with
    | true =>
      have hne : T ≠ U := by
        rintro rfl
        cases hT.symm.trans hU
      simp [hne]
    | false => simp

/-- A type and the class that saves it differ in their cores. -/
theorem removeCv_cvrSaver_ne (T : CppType α) : T.cvrSaver.removeCv ≠ T.removeCv := by
  intro h
  apply T.cvrSaver_core_ne
  have hcore : ∀ U : CppType α, U.removeCv.core = U.core := by
    intro U
    unfold removeCv
    split <;> rfl
  rw [← hcore T.cvrSaver, h, hcore]

end CppType

/-! ## Calls -/

/-- A function with one parameter. In its type the parameter has no top-level qualifiers. -/
structure UnaryFunction (α Value Effect : Type*) where
  /-- The type of the parameter. -/
  paramT : CppType α
  /-- The adjusted type has lost its qualifiers. -/
  removeCv_paramT : paramT.removeCv = paramT
  /-- What the function does. -/
  body : Value → Effect

/-- Why a call has no effect of the function. -/
inductive CallError
  /-- The exception for a wrong type. -/
  | incorrectParamT
  /-- A call through a pointer to another type of function is undefined. -/
  | wrongFunctionType
  deriving DecidableEq, Repr

/-- A `type_erased_unary_function`. -/
structure TypeErasedUnaryFunction (α Value Effect Index : Type*) where
  /-- The function behind the erased pointer. -/
  functionPtr : UnaryFunction α Value Effect
  /-- The index of the parameter's type. -/
  exactParamT : Index

namespace TypeErasedUnaryFunction

variable {Value Effect Index : Type*}

/-- The constructor from a pointer to a function. -/
def ofPointer (typeIdWithCvr : CppType α → Index) (ptr : UnaryFunction α Value Effect) :
    TypeErasedUnaryFunction α Value Effect Index :=
  ⟨ptr, typeIdWithCvr ptr.paramT⟩

/-- `call<ParamT>`. The pointer it uses is one to a function whose parameter has the type
given, without top-level qualifiers. -/
def call [DecidableEq α] (typeIdWithCvr : CppType α → Index) (ne : Index → Index → Bool)
    (self : TypeErasedUnaryFunction α Value Effect Index) (ParamT : CppType α) (v : Value) :
    Except CallError Effect :=
  if ne self.exactParamT (typeIdWithCvr ParamT) then .error .incorrectParamT
  else if self.functionPtr.paramT = ParamT.removeCv then .ok (self.functionPtr.body v)
  else .error .wrongFunctionType

variable [DecidableEq α] {typeIdWithCvr : CppType α → Index} {ne : Index → Index → Bool}
  {ptr : UnaryFunction α Value Effect} {ParamT : CppType α} {v : Value}

/-- The call throws when the indices differ. Otherwise the types of the functions decide. -/
theorem call_cases (same : Prop)
    (hne : ne (typeIdWithCvr ptr.paramT) (typeIdWithCvr ParamT) = true ↔ ¬ same) :
    let result := (ofPointer typeIdWithCvr ptr).call typeIdWithCvr ne ParamT v
    (result = .error .incorrectParamT ↔ ¬ same) ∧
    (result = .ok (ptr.body v) ↔ same ∧ ptr.paramT = ParamT.removeCv) ∧
    (result = .error .wrongFunctionType ↔ same ∧ ptr.paramT ≠ ParamT.removeCv) := by
  intro result
  by_cases hsame : same
  · have hequal : ¬ ne (typeIdWithCvr ptr.paramT) (typeIdWithCvr ParamT) = true :=
      fun h => hne.mp h hsame
    by_cases hT : ptr.paramT = ParamT.removeCv
    · have hresult : result = .ok (ptr.body v) := (if_neg hequal).trans (if_pos hT)
      simp [hresult, hsame, hT]
    · have hresult : result = .error .wrongFunctionType := (if_neg hequal).trans (if_neg hT)
      simp [hresult, hsame, hT]
  · have hresult : result = .error .incorrectParamT := if_pos (hne.mpr hsame)
    simp [hresult, hsame]

/-- Calls are exact without RTTI: the function runs for its parameter's exact type, and
every other type is rejected. Over `std::type_info` they are exact but for a type and the
class that saves it, which the test lets through to a function of another type. -/
theorem call_exact {m : CharMemory} {Info : Type*} (K : Toolchain α m Info)
    (build : StlBuild) (P : Platform) (S : CttiSkip) (hash : List UInt8 → ℕ)
    (printed : CppType α → List UInt8) (htypeid : K.TypeidStrips build)
    (hprinted : K.PrintsDistinct printed) (ptr : UnaryFunction α Value Effect)
    (ParamT : CppType α) (v : Value) :
    let ctti := (ofPointer (CttiTypeIndex.typeIdWithCvr K) ptr).call
      (CttiTypeIndex.typeIdWithCvr K) (CttiTypeIndex.facade P S hash).ne ParamT v
    let stl := (ofPointer (StlTypeIndex.typeIdWithCvr K) ptr).call
      (StlTypeIndex.typeIdWithCvr K) (StlTypeIndex.facade build K.typeInfo).ne ParamT v
    let confused := (ptr.paramT.isQualified = true ∧ ParamT = ptr.paramT.cvrSaver) ∨
      (ParamT.isQualified = true ∧ ptr.paramT = ParamT.cvrSaver)
    (ctti = .ok (ptr.body v) ↔ ParamT = ptr.paramT) ∧
    (ctti = .error .incorrectParamT ↔ ParamT ≠ ptr.paramT) ∧
    (stl = .ok (ptr.body v) ↔ ParamT = ptr.paramT) ∧
    (stl = .error .wrongFunctionType ↔ confused) ∧
    (stl = .error .incorrectParamT ↔ ParamT ≠ ptr.paramT ∧ ¬ confused) := by
  intro ctti stl confused
  have hctti : (CttiTypeIndex.facade P S hash).ne (CttiTypeIndex.typeIdWithCvr K ptr.paramT)
      (CttiTypeIndex.typeIdWithCvr K ParamT) = true ↔ ¬ ptr.paramT = ParamT := by
    rw [TypeIndexFacade.ne, Bool.not_eq_true', ← Bool.not_eq_true]
    exact not_congr (CttiTypeIndex.equal_n hprinted P _ _)
  have hstl : (StlTypeIndex.facade build K.typeInfo).ne
      (StlTypeIndex.typeIdWithCvr K ptr.paramT) (StlTypeIndex.typeIdWithCvr K ParamT) = true ↔
        ¬ ptr.paramT.saved = ParamT.saved := by
    rw [TypeIndexFacade.ne, Bool.not_eq_true', ← Bool.not_eq_true]
    refine not_congr ((StlTypeIndex.equal_typeid htypeid _ _).trans ?_)
    rw [CppType.stripped_inj, CppType.saved_core_inj]
  have hremoved : ParamT = ptr.paramT → ptr.paramT = ParamT.removeCv := by
    rintro rfl
    exact ptr.removeCv_paramT.symm
  have hconfused : confused → ptr.paramT ≠ ParamT.removeCv := by
    rintro (⟨-, hT⟩ | ⟨-, hT⟩) h
    · rw [hT] at h
      exact ptr.paramT.removeCv_cvrSaver_ne (h.symm.trans ptr.removeCv_paramT.symm)
    · exact ParamT.removeCv_cvrSaver_ne (hT.symm.trans h)
  obtain ⟨hwrong, hok, -⟩ := call_cases (v := v) _ hctti
  obtain ⟨hwrong', hok', hundefined⟩ := call_cases (v := v) _ hstl
  rw [CppType.saved_eq_iff] at hwrong' hok' hundefined
  refine ⟨?_, ?_, ?_, ?_, ?_⟩
  · rw [hok]
    exact ⟨fun h => h.1.symm, fun h => ⟨h.symm, hremoved h⟩⟩
  · rw [hwrong]
    exact not_congr eq_comm
  · rw [hok']
    constructor
    · rintro ⟨hT | hboth, h⟩
      · exact hT.symm
      · exact absurd h (hconfused hboth)
    · exact fun h => ⟨Or.inl h.symm, hremoved h⟩
  · rw [hundefined]
    constructor
    · rintro ⟨hT | hboth, h⟩
      · exact absurd (hremoved hT.symm) h
      · exact hboth
    · exact fun hboth => ⟨Or.inr hboth, hconfused hboth⟩
  · rw [hwrong', not_or]
    exact and_congr_left' (not_congr eq_comm)

/-- A function of a `const` reference, called with the class that saves this type. -/
theorem call_exact_unary :
    let ptr : UnaryFunction Unit ℕ ℕ := ⟨⟨.other (), true, false, .lvalue⟩, rfl, id⟩
    let ParamT := ptr.paramT.cvrSaver
    let P : Platform := ⟨.signed, default, .constexpr14⟩
    let ctti := (ofPointer (CttiTypeIndex.typeIdWithCvr unaryToolchain) ptr).call
      (CttiTypeIndex.typeIdWithCvr unaryToolchain)
      (CttiTypeIndex.facade P (skip .other ⟨0, 0⟩) List.length).ne ParamT 7
    let stl := (ofPointer (StlTypeIndex.typeIdWithCvr unaryToolchain) ptr).call
      (StlTypeIndex.typeIdWithCvr unaryToolchain)
      (StlTypeIndex.facade byNamesBuild unaryToolchain.typeInfo).ne ParamT 7
    let confused := (ptr.paramT.isQualified = true ∧ ParamT = ptr.paramT.cvrSaver) ∨
      (ParamT.isQualified = true ∧ ptr.paramT = ParamT.cvrSaver)
    (ctti = .ok (ptr.body 7) ↔ ParamT = ptr.paramT) ∧
    (ctti = .error .incorrectParamT ↔ ParamT ≠ ptr.paramT) ∧
    (stl = .ok (ptr.body 7) ↔ ParamT = ptr.paramT) ∧
    (stl = .error .wrongFunctionType ↔ confused) ∧
    (stl = .error .incorrectParamT ↔ ParamT ≠ ptr.paramT ∧ ¬ confused) :=
  call_exact unaryToolchain byNamesBuild ⟨.signed, default, .constexpr14⟩
    (skip .other ⟨0, 0⟩) List.length _ unaryToolchain_typeidStrips unaryToolchain_printsDistinct
    ⟨⟨.other (), true, false, .lvalue⟩, rfl, id⟩ _ 7

end TypeErasedUnaryFunction

end TypeIndex
