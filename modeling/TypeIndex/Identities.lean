import TypeIndex.CppTypes
import TypeIndex.StlTypeIndex

/-!
# Type identities of the two backends

`type_id` strips its argument before the type reaches `typeid` or `ctti`, and
`type_id_with_cvr` passes it on unstripped, wrapped in `detail::cvr_saver` where
`typeid` would strip it. Both backends then distinguish the same types.
-/

namespace TypeIndex

open CMemory

/-- What a compiler and its runtime provide for every type. -/
structure Toolchain (α : Type*) (m : CharMemory) (Info : Type*) where
  /-- The members of `std::type_info`. -/
  typeInfo : TypeInfoClass m Info
  /-- The operator `typeid` on types. -/
  typeid : CppType α → Info
  /-- The demangler; it may return a null pointer. -/
  demangle : CStr m → Option (CStr m)
  /-- The functions `boost::detail::ctti<T>::n()`. -/
  n : CppType α → CStr m

variable {α : Type*} {m : CharMemory} {Info : Type*}

/-- `type_id` of the index over `std::type_info`. -/
def StlTypeIndex.typeId (K : Toolchain α m Info) (T : CppType α) : StlTypeIndex Info :=
  StlTypeIndex.ofTypeInfo (K.typeid T.removeReference.removeCv)

/-- `type_id_with_cvr` of the index over `std::type_info`, which saves references and qualifiers. -/
def StlTypeIndex.typeIdWithCvr (K : Toolchain α m Info) (T : CppType α) : StlTypeIndex Info :=
  StlTypeIndex.ofTypeInfo (K.typeid T.saved)

/-- `type_id` of the index without RTTI. -/
def CttiTypeIndex.typeId (K : Toolchain α m Info) (T : CppType α) : CttiTypeIndex m :=
  ⟨K.n T.removeReference.removeCv⟩

/-- `type_id_with_cvr` of the index without RTTI. -/
def CttiTypeIndex.typeIdWithCvr (K : Toolchain α m Info) (T : CppType α) : CttiTypeIndex m :=
  ⟨K.n T⟩

/-- `typeid` sees a type without its reference and top-level qualifiers. On
platforms that compare by names, the raw names tell the same types apart. -/
structure Toolchain.TypeidStrips (K : Toolchain α m Info) (build : StlBuild) : Prop where
  /-- The operator `==` on `std::type_info`. -/
  eq_iff : ∀ X Y, K.typeInfo.eq (K.typeid X) (K.typeid Y) = true ↔
    X.removeReference.removeCv = Y.removeReference.removeCv
  /-- The names that replace the operator where it does not work. -/
  rawName_iff : build.compareByNames = true → ∀ X Y,
    ((StlTypeIndex.ofTypeInfo (K.typeid X)).rawName build K.typeInfo).chars =
      ((StlTypeIndex.ofTypeInfo (K.typeid Y)).rawName build K.typeInfo).chars ↔
    K.typeInfo.eq (K.typeid X) (K.typeid Y) = true

/-- Distinct types have distinct printed names, and raw names tell these apart. -/
structure Toolchain.PrintsDistinct (K : Toolchain α m Info) (printed : CppType α → List UInt8) :
    Prop where
  /-- Printing loses nothing. -/
  injective : printed.Injective
  /-- Cutting out raw names loses nothing. -/
  rawName : ∀ X Y, (K.n X).chars = (K.n Y).chars → printed X = printed Y

section

variable {K : Toolchain α m Info} {build : StlBuild} {printed : CppType α → List UInt8}

/-- Two indices made by `typeid` are equal when the stripped types are. -/
theorem StlTypeIndex.equal_typeid (h : K.TypeidStrips build) (X Y : CppType α) :
    (StlTypeIndex.ofTypeInfo (K.typeid X)).equal build K.typeInfo
        (StlTypeIndex.ofTypeInfo (K.typeid Y)) = true ↔
      X.removeReference.removeCv = Y.removeReference.removeCv := by
  rw [← h.eq_iff]
  unfold StlTypeIndex.equal
  cases hnames : build.compareByNames with
  | false => rfl
  | true =>
    rw [← h.rawName_iff hnames]
    exact TypeIndexFacade.inheritedEqual_iff build.strcmp _ _ _

/-- Two indices made by `ctti` are equal when the types are. -/
theorem CttiTypeIndex.equal_n (h : K.PrintsDistinct printed) (P : Platform) (X Y : CppType α) :
    CttiTypeIndex.equal P ⟨K.n X⟩ ⟨K.n Y⟩ = true ↔ X = Y := by
  rw [CttiTypeIndex.equal, decide_eq_true_eq, constexprStrcmp_eq_zero]
  constructor
  · intro hraw
    exact h.injective (h.rawName X Y hraw)
  · rintro rfl
    rfl

end

/-- Stripped types are equal when the cores are. -/
theorem CppType.stripped_inj {T1 T2 : CppType α} :
    T1.removeReference.removeCv = T2.removeReference.removeCv ↔ T1.core = T2.core := by
  rw [T1.removeCv_removeReference, T2.removeCv_removeReference]
  constructor
  · intro h
    rw [CppType.mk.injEq] at h
    exact h.1
  · intro h
    rw [h]

/-- The saved types are equal when their cores are. -/
theorem CppType.saved_core_inj {T1 T2 : CppType α} :
    T1.saved.core = T2.saved.core ↔ T1.saved = T2.saved := by
  constructor
  · intro h
    rw [T1.saved_eq_core, T2.saved_eq_core, h]
  · exact congrArg CppType.core

/-- A type is its own stripped form exactly when it has nothing to strip. -/
theorem CppType.eq_stripped_iff {T : CppType α} :
    T = T.removeReference.removeCv ↔ T.isQualified = false := by
  rw [T.removeCv_removeReference, CppType.isQualified_eq_false]

/-- The two backends draw the same identities: `type_id` identifies types that agree
after stripping, `type_id_with_cvr` identifies equal types only, and the two agree on
exactly the types without reference and top-level qualifiers. -/
theorem identities_agree (K : Toolchain α m Info) (build : StlBuild) (P : Platform)
    (S : CttiSkip) (hash : List UInt8 → ℕ) (printed : CppType α → List UInt8)
    (htypeid : K.TypeidStrips build) (hprinted : K.PrintsDistinct printed)
    (T1 T2 : CppType α) (h1 : T1.NotSaver) (h2 : T2.NotSaver) :
    let stl := StlTypeIndex.facade build K.typeInfo
    let ctti := CttiTypeIndex.facade (m := m) P S hash
    (stl.eq (StlTypeIndex.typeId K T1) (StlTypeIndex.typeId K T2) = true ↔
      T1.removeReference.removeCv = T2.removeReference.removeCv) ∧
    (ctti.eq (CttiTypeIndex.typeId K T1) (CttiTypeIndex.typeId K T2) = true ↔
      T1.removeReference.removeCv = T2.removeReference.removeCv) ∧
    (stl.eq (StlTypeIndex.typeIdWithCvr K T1) (StlTypeIndex.typeIdWithCvr K T2) = true ↔
      T1 = T2) ∧
    (ctti.eq (CttiTypeIndex.typeIdWithCvr K T1) (CttiTypeIndex.typeIdWithCvr K T2) = true ↔
      T1 = T2) ∧
    (stl.eq (StlTypeIndex.typeIdWithCvr K T1) (StlTypeIndex.typeId K T1) = true ↔
      T1.isReference = false ∧ T1.isConst = false ∧ T1.isVolatile = false) ∧
    (ctti.eq (CttiTypeIndex.typeIdWithCvr K T1) (CttiTypeIndex.typeId K T1) = true ↔
      T1.isReference = false ∧ T1.isConst = false ∧ T1.isVolatile = false) := by
  intro stl ctti
  have hqualified : (T1.isReference = false ∧ T1.isConst = false ∧ T1.isVolatile = false) ↔
      T1.isQualified = false := by
    simp only [CppType.isQualified, Bool.or_eq_false_iff, and_assoc]
  rw [hqualified]
  refine ⟨?_, ?_, ?_, ?_, ?_, ?_⟩
  · apply (StlTypeIndex.equal_typeid htypeid _ _).trans
    rw [CppType.stripped_inj, CppType.stripped_inj]
    rfl
  · exact CttiTypeIndex.equal_n hprinted P _ _
  · apply (StlTypeIndex.equal_typeid htypeid _ _).trans
    rw [CppType.stripped_inj, CppType.saved_core_inj, CppType.saved_inj h1 h2]
  · exact CttiTypeIndex.equal_n hprinted P _ _
  · apply (StlTypeIndex.equal_typeid htypeid _ _).trans
    rw [CppType.stripped_inj, ← T1.saved_core_eq]
    rfl
  · apply (CttiTypeIndex.equal_n hprinted P _ _).trans
    exact CppType.eq_stripped_iff

/-! ## A toolchain with unary names -/

/-- The qualifiers and the reference of a type as a number below twelve. -/
def qualifierCode (constQualified volatileQualified : Bool) (reference : Reference) : ℕ :=
  (if constQualified then 1 else 0) + (if volatileQualified then 2 else 0) +
    match reference with
    | .none => 0
    | .lvalue => 4
    | .rvalue => 8

/-- A number for every core over one atom. -/
def CoreType.code : CoreType Unit → ℕ
  | .other _ => 0
  | .cvrSaver core constQualified volatileQualified reference =>
    1 + (12 * core.code + qualifierCode constQualified volatileQualified reference)

/-- A number for every type over one atom. -/
def CppType.code (T : CppType Unit) : ℕ :=
  12 * T.core.code + qualifierCode T.constQualified T.volatileQualified T.reference

/-- Numbers combined from a core's number and the qualifiers determine both. -/
theorem qualifierCode_inj {a b : ℕ} {c v c' v' : Bool} {r r' : Reference} :
    12 * a + qualifierCode c v r = 12 * b + qualifierCode c' v' r' ↔
      a = b ∧ c = c' ∧ v = v' ∧ r = r' := by
  constructor
  · intro h
    have hlt : qualifierCode c v r < 12 := by
      cases c <;> cases v <;> cases r <;> decide
    have hlt' : qualifierCode c' v' r' < 12 := by
      cases c' <;> cases v' <;> cases r' <;> decide
    have hcode : qualifierCode c v r = qualifierCode c' v' r' := by omega
    refine ⟨by omega, ?_⟩
    revert hcode
    cases c <;> cases v <;> cases r <;> cases c' <;> cases v' <;> cases r' <;> decide
  · rintro ⟨rfl, rfl, rfl, rfl⟩
    rfl

/-- The number of a core determines it. -/
theorem CoreType.code_injective : CoreType.code.Injective := by
  intro a b h
  induction a generalizing b with
  | other type =>
    cases b with
    | other type' => rfl
    | cvrSaver core c v r =>
      simp only [CoreType.code] at h
      omega
  | cvrSaver core c v r ih =>
    cases b with
    | other type' =>
      simp only [CoreType.code] at h
      omega
    | cvrSaver core' c' v' r' =>
      rw [CoreType.code, CoreType.code, Nat.add_left_cancel_iff, qualifierCode_inj] at h
      obtain ⟨hcore, rfl, rfl, rfl⟩ := h
      rw [ih hcore]

/-- The number of a type determines it. -/
theorem CppType.code_injective : CppType.code.Injective := by
  rintro ⟨core, c, v, r⟩ ⟨core', c', v', r'⟩ h
  obtain ⟨hcore, hc, hv, hr⟩ := qualifierCode_inj.mp h
  cases CoreType.code_injective hcore
  cases hc
  cases hv
  cases hr
  rfl

/-- The name with a number: as many letters. -/
def unaryName (code : ℕ) : List UInt8 := List.replicate code 97

/-- A memory with every unary name in a block of its own. -/
def unaryMemory : CharMemory := fun block => unaryName block ++ [0]

/-- Every block of the memory holds its unary name. -/
theorem unaryMemory_stringAt (code : ℕ) :
    unaryMemory.StringAt ⟨code, 0⟩ (unaryName code) := by
  refine ⟨fun h => ?_, List.prefix_refl _⟩
  have hletter := List.eq_of_mem_replicate h
  cases hletter

/-- The pointer to a unary name. -/
def unaryString (code : ℕ) : CStr unaryMemory := (unaryMemory_stringAt code).cstr

/-- Unary names are equal when their numbers are. -/
theorem unaryString_chars_inj {a b : ℕ} :
    (unaryString a).chars = (unaryString b).chars ↔ a = b := by
  have hchars : ∀ code, (unaryString code).chars = unaryName code := fun code =>
    Memory.StringAt.chars_eq (unaryMemory_stringAt code)
  rw [hchars, hchars]
  constructor
  · intro h
    simpa [unaryName] using congrArg List.length h
  · exact congrArg unaryName

/-- A toolchain that names every type by its number. -/
def unaryToolchain : Toolchain Unit unaryMemory (CppType Unit) where
  typeInfo :=
    { name := fun X => unaryString X.code
      rawName := fun X => unaryString X.code
      eq := fun X Y => decide (X = Y)
      before := fun X Y => decide (X.code < Y.code)
      hashCode := CppType.code }
  typeid X := X.removeReference.removeCv
  demangle := some
  n X := unaryString X.code

/-- The settings of a platform that compares by names. -/
def byNamesBuild : StlBuild := ⟨false, true, default⟩

/-- The toolchain strips types under `typeid`. -/
theorem unaryToolchain_typeidStrips : unaryToolchain.TypeidStrips byNamesBuild where
  eq_iff _ _ := decide_eq_true_iff
  rawName_iff _ _ _ :=
    unaryString_chars_inj.trans (CppType.code_injective.eq_iff.trans decide_eq_true_iff.symm)

/-- The toolchain gives different types different names. -/
theorem unaryToolchain_printsDistinct :
    unaryToolchain.PrintsDistinct fun X => unaryName X.code where
  injective X Y h := by
    have hlen : (unaryName X.code).length = (unaryName Y.code).length := congrArg List.length h
    rw [unaryName, unaryName, List.length_replicate, List.length_replicate] at hlen
    exact CppType.code_injective hlen
  rawName _ _ h := congrArg unaryName (unaryString_chars_inj.mp h)

/-- A `const` type and a reference to it, on the toolchain with unary names. -/
theorem identities_agree_unary :
    let T1 : CppType Unit := ⟨.other (), true, false, .none⟩
    let T2 : CppType Unit := ⟨.other (), true, false, .lvalue⟩
    let K := unaryToolchain
    let P : Platform := ⟨.signed, default, .constexpr14⟩
    let stl := StlTypeIndex.facade byNamesBuild K.typeInfo
    let ctti := CttiTypeIndex.facade (m := unaryMemory) P (skip .other ⟨0, 0⟩) List.length
    (stl.eq (StlTypeIndex.typeId K T1) (StlTypeIndex.typeId K T2) = true ↔
      T1.removeReference.removeCv = T2.removeReference.removeCv) ∧
    (ctti.eq (CttiTypeIndex.typeId K T1) (CttiTypeIndex.typeId K T2) = true ↔
      T1.removeReference.removeCv = T2.removeReference.removeCv) ∧
    (stl.eq (StlTypeIndex.typeIdWithCvr K T1) (StlTypeIndex.typeIdWithCvr K T2) = true ↔
      T1 = T2) ∧
    (ctti.eq (CttiTypeIndex.typeIdWithCvr K T1) (CttiTypeIndex.typeIdWithCvr K T2) = true ↔
      T1 = T2) ∧
    (stl.eq (StlTypeIndex.typeIdWithCvr K T1) (StlTypeIndex.typeId K T1) = true ↔
      T1.isReference = false ∧ T1.isConst = false ∧ T1.isVolatile = false) ∧
    (ctti.eq (CttiTypeIndex.typeIdWithCvr K T1) (CttiTypeIndex.typeId K T1) = true ↔
      T1.isReference = false ∧ T1.isConst = false ∧ T1.isVolatile = false) :=
  identities_agree unaryToolchain byNamesBuild ⟨.signed, default, .constexpr14⟩
    (skip .other ⟨0, 0⟩) List.length _ unaryToolchain_typeidStrips unaryToolchain_printsDistinct
    ⟨.other (), true, false, .none⟩ ⟨.other (), true, false, .lvalue⟩ ⟨(), rfl⟩ ⟨(), rfl⟩

end TypeIndex
