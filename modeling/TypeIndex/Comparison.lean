import TypeIndex.StlTypeIndex

/-!
# Indices as keys of containers

Three questions about the comparisons of indices. Do the path taken at compile time
and the path taken at run time order names alike? Exactly when plain `char` is
unsigned or the names first differ in bytes with equal top bits. Are indices
usable as keys? On either path, and for every class that inherits the facade's
functions, they are ordered by the characters of their raw names alone. Do equal
indices over `std::type_info` have one hash code? Not where they are compared by
names, since the hash code still comes from the object.
-/

namespace TypeIndex

open CMemory

/-! ## Compile time and run time -/

section Paths

variable {m : CharMemory}

/-- Comparing a pair of indices at compile time, where all characters are known
constants, and at run time gives results of one sign and the same answers. -/
def PathsAgree (sign : CharSign) (strcmp : Strcmp) (S : CttiSkip) (hash : List UInt8 → ℕ)
    (a b : CttiTypeIndex m) : Prop :=
  ∀ compileTime runTime : Pointer → Bool,
    isConstantString compileTime a.rawName = true → isConstantString compileTime b.rawName = true →
    (isConstantString runTime a.rawName && isConstantString runTime b.rawName) = false →
    let C : Platform := ⟨sign, strcmp, .builtins compileTime⟩
    let R : Platform := ⟨sign, strcmp, .builtins runTime⟩
    (constexprStrcmp C a.rawName b.rawName).sign = (constexprStrcmp R a.rawName b.rawName).sign ∧
      a.equal C b = a.equal R b ∧ a.before C b = a.before R b ∧
      ∀ op, (CttiTypeIndex.facade C S hash).indexOperator op a b =
        (CttiTypeIndex.facade R S hash).indexOperator op a b

/-- The order of the strings does not matter. -/
theorem SameHalf.symm {s t : List UInt8} (h : SameHalf s t) : SameHalf t s := by
  intro c d hcd
  rw [firstDifference_swap, Option.map_eq_some_iff] at hcd
  obtain ⟨⟨d', c'⟩, hdiff, heq⟩ := hcd
  rw [Prod.swap_prod_mk, Prod.mk.injEq] at heq
  obtain ⟨rfl, rfl⟩ := heq
  exact (h d' c' hdiff).symm

/-- The loop and the library give results of one sign under the condition on the
first differing bytes. -/
theorem loop_sign_eq_library_sign_iff (P : Platform) (v1 v2 : CStr m) :
    (StrcmpPath.loop.run P v1 v2).sign = (StrcmpPath.library.run P v1 v2).sign ↔
      (P.charSign = .unsigned ∨ SameHalf v1.chars v2.chars) := by
  rw [StrcmpPath.run_sign, StrcmpPath.run_sign]
  exact compareBy_sign_eq_iff P.charSign v1.zero_not_mem_chars v2.zero_not_mem_chars

/-- Constant strings are compared by the loop. -/
theorem constexprStrcmp_of_constant {sign : CharSign} {strcmp : Strcmp}
    {isConstant : Pointer → Bool} {v1 v2 : CStr m}
    (h : (isConstantString isConstant v1 && isConstantString isConstant v2) = true) :
    constexprStrcmp ⟨sign, strcmp, .builtins isConstant⟩ v1 v2 =
      StrcmpPath.loop.run ⟨sign, strcmp, .builtins isConstant⟩ v1 v2 :=
  if_pos h

/-- Strings not both known to be constant are compared by the library. -/
theorem constexprStrcmp_of_not_constant {sign : CharSign} {strcmp : Strcmp}
    {isConstant : Pointer → Bool} {v1 v2 : CStr m}
    (h : (isConstantString isConstant v1 && isConstantString isConstant v2) = false) :
    constexprStrcmp ⟨sign, strcmp, .builtins isConstant⟩ v1 v2 =
      StrcmpPath.library.run ⟨sign, strcmp, .builtins isConstant⟩ v1 v2 :=
  if_neg (by rw [h]; exact Bool.false_ne_true)

/-- Numbers of one sign are negative together. -/
theorem neg_iff_of_sign_eq {x y : ℤ} (h : x.sign = y.sign) : x < 0 ↔ y < 0 := by
  rw [← Int.sign_eq_neg_one_iff_neg, h, Int.sign_eq_neg_one_iff_neg]

/-- The answers at compile time and at run time agree exactly when plain `char`
is unsigned or the names first differ in bytes with equal top bits. -/
theorem pathsAgree_iff (sign : CharSign) (strcmp : Strcmp) (S : CttiSkip) (hash : List UInt8 → ℕ)
    (a b : CttiTypeIndex m) : PathsAgree sign strcmp S hash a b ↔
      (sign = .unsigned ∨ SameHalf a.rawName.chars b.rawName.chars) := by
  constructor
  · intro h
    have hall : ∀ v : CStr m, isConstantString (fun _ => true) v = true :=
      isConstantString_of_forall fun _ => rfl
    have hnone : ∀ v : CStr m, isConstantString (fun _ => false) v = false :=
      fun v => isConstantString_of_not rfl
    have hagree := (h (fun _ => true) (fun _ => false) (hall _) (hall _) (by simp [hnone])).1
    rw [constexprStrcmp_of_constant (by simp [hall]),
      constexprStrcmp_of_not_constant (by simp [hnone])] at hagree
    exact (loop_sign_eq_library_sign_iff _ _ _).mp hagree
  · intro h compileTime runTime ha hb hrun C R
    have hsign : (constexprStrcmp C a.rawName b.rawName).sign =
        (constexprStrcmp R a.rawName b.rawName).sign := by
      rw [constexprStrcmp_of_constant (by simp [ha, hb]), constexprStrcmp_of_not_constant hrun]
      exact (loop_sign_eq_library_sign_iff C _ _).mpr h
    have hsign' : (constexprStrcmp C b.rawName a.rawName).sign =
        (constexprStrcmp R b.rawName a.rawName).sign := by
      rw [constexprStrcmp_of_constant (by simp [ha, hb]),
        constexprStrcmp_of_not_constant (by rw [Bool.and_comm]; exact hrun)]
      exact (loop_sign_eq_library_sign_iff C _ _).mpr (h.imp_right SameHalf.symm)
    have hequal : a.equal C b = a.equal R b := by
      simp only [CttiTypeIndex.equal, constexprStrcmp_eq_zero]
    have hbefore : a.before C b = a.before R b := by
      simp only [CttiTypeIndex.before, neg_iff_of_sign_eq hsign]
    have hbefore' : b.before C a = b.before R a := by
      simp only [CttiTypeIndex.before, neg_iff_of_sign_eq hsign']
    refine ⟨hsign, hequal, hbefore, fun op => ?_⟩
    have heq : (CttiTypeIndex.facade C S hash).eq a b = (CttiTypeIndex.facade R S hash).eq a b :=
      hequal
    have hlt : (CttiTypeIndex.facade C S hash).lt a b = (CttiTypeIndex.facade R S hash).lt a b :=
      hbefore
    have hlt' : (CttiTypeIndex.facade C S hash).lt b a = (CttiTypeIndex.facade R S hash).lt b a :=
      hbefore'
    cases op <;> simp only [TypeIndexFacade.indexOperator, TypeIndexFacade.gt, TypeIndexFacade.le,
      TypeIndexFacade.ge, TypeIndexFacade.ne, heq, hlt, hlt']

/-- A memory with the one-character names `"\x80"` and `"a"`. -/
def highByteMemory : CharMemory := fun block => if block = 0 then [128, 0] else [97, 0]

/-- With signed `char` the name `"\x80"` precedes `"a"` at compile time and
follows it at run time. -/
theorem not_pathsAgree_highByte : ¬ PathsAgree .signed default ⟨0, 0, ⟨0, 0⟩, 0⟩ List.length
    (⟨⟨⟨0, 0⟩, by decide⟩⟩ : CttiTypeIndex highByteMemory) ⟨⟨⟨1, 0⟩, by decide⟩⟩ := by
  intro h
  have hagree := (h (fun _ => true) (fun _ => false) (isConstantString_of_forall (fun _ => rfl) _)
    (isConstantString_of_forall (fun _ => rfl) _) (by simp [isConstantString_of_not])).1
  rw [constexprStrcmp_of_constant (by simp [isConstantString_of_forall]),
    constexprStrcmp_of_not_constant (by simp [isConstantString_of_not]),
    StrcmpPath.run_sign, StrcmpPath.run_sign] at hagree
  exact absurd hagree (by decide)

end Paths

/-! ## Keys of containers -/

namespace CttiTypeIndex

variable {m : CharMemory}

/-- The raw name is long enough for the skip at its end. -/
def LongEnough (S : CttiSkip) (self : CttiTypeIndex m) : Prop :=
  S.sizeAtEnd ≤ self.rawName.chars.length

/-- The hash code covers the raw name without the skipped end. -/
theorem hashCode_of_longEnough {S : CttiSkip} {self : CttiTypeIndex m} (h : self.LongEnough S)
    (hash : List UInt8 → ℕ) : self.hashCode S hash =
      some (hash (self.rawName.chars.take (self.rawName.chars.length - S.sizeAtEnd))) := by
  have hraw := self.rawName.stringAt_chars
  rw [← List.take_append_drop (self.rawName.chars.length - S.sizeAtEnd) self.rawName.chars] at hraw
  refine hashCode_eq hraw ?_ hash
  rw [List.length_drop]
  exact Nat.sub_sub_self h

/-- On one path, indices are ordered by the characters of their raw names. -/
theorem facade_keyedBy {P : Platform} {path : StrcmpPath} (hpath : P.ResolvesTo m path)
    (S : CttiSkip) (hash : List UInt8 → ℕ) :
    (facade P S hash : TypeIndexFacade m (CttiTypeIndex m) (CttiData m)).KeyedBy
      (fun d => terminatedKeys (path.key P.charSign) d.rawName.chars) (LongEnough S) where
  equal_iff a b := by
    change a.equal P b = true ↔ _
    rw [equal, decide_eq_true_eq, constexprStrcmp_eq_zero]
    exact (terminatedKeys_injective (path.key_injective _)).eq_iff.symm
  before_iff a b := by
    change a.before P b = true ↔ _
    rw [before, decide_eq_true_eq, hpath, path.run_neg]
  hashCode_eq a b ha hb hkey := by
    have hchars := terminatedKeys_injective (path.key_injective _) hkey
    refine ⟨_, hashCode_of_longEnough ha hash, ?_⟩
    rw [hchars]
    exact hashCode_of_longEnough hb hash

end CttiTypeIndex

/-- Indices are keys of ordered and unordered containers. This holds of every class
that inherits the facade's functions, whose address tests change no answer, and of
`ctti_type_index` on either path; and the answers depend on the characters of the
raw names only, so that names stored by different modules give the same ones. -/
theorem containerKey_contract (strcmp strcmp' : Strcmp) (hash : List UInt8 → ℕ)
    (m m' : CharMemory) :
    (∀ (Derived TypeInfo Derived' TypeInfo' : Type) (rawName : Derived → CStr m)
      (ofTypeInfo : TypeInfo → Derived) (rawName' : Derived' → CStr m')
      (ofTypeInfo' : TypeInfo' → Derived'),
      let F := TypeIndexFacade.inheriting strcmp hash rawName ofTypeInfo
      let F' := TypeIndexFacade.inheriting strcmp' hash rawName' ofTypeInfo'
      F.ContainerKey (fun _ => True) ∧ F.SameAnswers F' (fun _ => True) (fun _ => True) ∧
        ∀ a b, F.equal a b = decide (strcmp.run m (rawName a) (rawName b) = 0) ∧
          F.before a b = decide (strcmp.run m (rawName a) (rawName b) < 0)) ∧
    (∀ (P P' : Platform) (path : StrcmpPath) (S S' : CttiSkip), P.charSign = P'.charSign →
      S.sizeAtEnd = S'.sizeAtEnd → P.ResolvesTo m path → P'.ResolvesTo m' path →
      let F := CttiTypeIndex.facade (m := m) P S hash
      let F' := CttiTypeIndex.facade (m := m') P' S' hash
      F.ContainerKey (CttiTypeIndex.LongEnough S) ∧
        F.SameAnswers F' (CttiTypeIndex.LongEnough S) (CttiTypeIndex.LongEnough S')) := by
  constructor
  · intro Derived TypeInfo Derived' TypeInfo' rawName ofTypeInfo rawName' ofTypeInfo' F F'
    have hF : F.KeyedBy _ _ :=
      TypeIndexFacade.inheriting_keyedBy strcmp hash rawName ofTypeInfo
    have hF' : F'.KeyedBy _ _ :=
      TypeIndexFacade.inheriting_keyedBy strcmp' hash rawName' ofTypeInfo'
    refine ⟨hF.containerKey, ?_, fun a b => ⟨?_, ?_⟩⟩
    · exact TypeIndexFacade.sameAnswers_of_keyedBy _ (fun s => some (hash s)) hF hF'
        (fun d _ => TypeIndexFacade.inheritedHashCode_eq hash rawName d)
        (fun d _ => TypeIndexFacade.inheritedHashCode_eq hash rawName' d)
    · rw [Bool.eq_iff_iff, decide_eq_true_eq, TypeIndexFacade.strcmp_eq_zero_iff]
      exact TypeIndexFacade.inheritedEqual_iff strcmp rawName a b
    · rw [Bool.eq_iff_iff, decide_eq_true_eq, TypeIndexFacade.strcmp_neg_iff]
      exact TypeIndexFacade.inheritedBefore_iff strcmp rawName a b
  · intro P P' path S S' hsign hend hpath hpath' F F'
    have hF := CttiTypeIndex.facade_keyedBy hpath S hash
    have hF' := CttiTypeIndex.facade_keyedBy hpath' S' hash
    rw [← hsign] at hF'
    refine ⟨hF.containerKey, ?_⟩
    exact TypeIndexFacade.sameAnswers_of_keyedBy
      (terminatedKeys (path.key P.charSign))
      (fun s => some (hash (s.take (s.length - S.sizeAtEnd)))) hF hF'
      (fun d hd => CttiTypeIndex.hashCode_of_longEnough hd hash)
      (fun d hd => by rw [hend]; exact CttiTypeIndex.hashCode_of_longEnough hd hash)

/-- The contract for two modules whose names are compared by the loop over signed
`char`. -/
theorem containerKey_contract_loop :
    let P : Platform := ⟨.signed, default, .constexpr14⟩
    let F := CttiTypeIndex.facade (m := documentedMemory) P (makeCttiSkip 39 1 false ⟨1, 4⟩ 1)
      List.length
    let F' := CttiTypeIndex.facade (m := highByteMemory) P (makeCttiSkip 39 1 false ⟨1, 1⟩ 1)
      List.length
    F.ContainerKey (CttiTypeIndex.LongEnough (makeCttiSkip 39 1 false ⟨1, 4⟩ 1)) ∧
      F.SameAnswers F' (CttiTypeIndex.LongEnough (makeCttiSkip 39 1 false ⟨1, 4⟩ 1))
        (CttiTypeIndex.LongEnough (makeCttiSkip 39 1 false ⟨1, 1⟩ 1)) :=
  (containerKey_contract default default List.length documentedMemory highByteMemory).2
    ⟨.signed, default, .constexpr14⟩ ⟨.signed, default, .constexpr14⟩ .loop _ _ rfl rfl
    (fun _ _ => rfl) (fun _ _ => rfl)

/-! ## Hash codes of the index over `std::type_info` -/

/-- What is known of `std::type_info`: its operator `==` is an equivalence, and objects
that it identifies have one hash code. -/
structure TypeInfoClass.Consistent {m : CharMemory} {Info : Type*} (C : TypeInfoClass m Info) :
    Prop where
  /-- The operator `==`, which every object satisfies with itself. -/
  eq_equivalence : Equivalence fun x y => C.eq x y = true
  /-- The member `hash_code` follows the operator. -/
  hashCode_eq : ∀ x y, C.eq x y = true → C.hashCode x = C.hashCode y

/-- Equal indices have equal hash values. -/
def StlTypeIndex.EqualHash {m : CharMemory} {Info : Type*} (build : StlBuild)
    (C : TypeInfoClass m Info) (x y : StlTypeIndex Info) : Prop :=
  x.equal build C y = true →
    (StlTypeIndex.facade build C).hashValue x = (StlTypeIndex.facade build C).hashValue y

section Hash

variable {m : CharMemory} {Info : Type*}

/-- An implementation whose hash code tells an object from those it differs from. -/
theorem exists_separating_hashCode {C : TypeInfoClass m Info}
    (heq : Equivalence fun x y => C.eq x y = true) {x y : Info} (hne : ¬ C.eq x y = true) :
    ∃ hashCode : Info → ℕ, (∀ a b, C.eq a b = true → hashCode a = hashCode b) ∧
      hashCode x ≠ hashCode y := by
  refine ⟨fun a => if C.eq x a then 1 else 0, fun a b hab => ?_, ?_⟩
  · have hiff : C.eq x a = true ↔ C.eq x b = true :=
      ⟨fun h => heq.trans h hab, fun h => heq.trans h (heq.symm hab)⟩
    simp only [hiff]
  · have hself : C.eq x x = true := heq.refl x
    simp [hself, hne]

/-- Without comparison by names two indices are equal when the objects are. With it
their raw names decide. -/
theorem StlTypeIndex.equal_iff (build : StlBuild) (C : TypeInfoClass m Info)
    (x y : StlTypeIndex Info) : x.equal build C y = true ↔
      if build.compareByNames = true
      then (x.rawName build C).chars = (y.rawName build C).chars
      else C.eq x.data y.data = true := by
  unfold StlTypeIndex.equal
  cases build.compareByNames with
  | false => rfl
  | true => exact TypeIndexFacade.inheritedEqual_iff build.strcmp (StlTypeIndex.rawName build C) x y

/-- Equal indices have equal hash values, whatever hash codes an implementation gives
its objects, exactly when indices are not compared by names, or the raw names differ,
or the operator `==` identifies the objects. -/
theorem equalHash_iff (build : StlBuild) (C : TypeInfoClass m Info) (x y : StlTypeIndex Info)
    (heq : Equivalence fun a b => C.eq a b = true) :
    (∀ hashCode : Info → ℕ,
      TypeInfoClass.Consistent { C with hashCode := hashCode } →
        StlTypeIndex.EqualHash build { C with hashCode := hashCode } x y) ↔
      (build.compareByNames = false ∨
        (x.rawName build C).chars ≠ (y.rawName build C).chars ∨ C.eq x.data y.data = true) := by
  constructor
  · intro h
    by_contra hnot
    rw [not_or, not_or, not_ne_iff, Bool.not_eq_false] at hnot
    obtain ⟨hnames, hchars, hne⟩ := hnot
    obtain ⟨hashCode, hfollows, hdiffer⟩ := exists_separating_hashCode heq hne
    have hequal : x.equal build { C with hashCode := hashCode } y = true := by
      rw [StlTypeIndex.equal_iff, if_pos hnames]
      exact hchars
    have hsame := h hashCode ⟨heq, hfollows⟩ hequal
    exact hdiffer (Option.some.inj hsame)
  · intro hcond hashCode hconsistent hequal
    have hobjects : C.eq x.data y.data = true := by
      rw [StlTypeIndex.equal_iff] at hequal
      rcases hcond with hnames | hchars | hobjects
      · rw [if_neg (by simp [hnames])] at hequal
        exact hequal
      · split_ifs at hequal
        · exact absurd hequal hchars
        · exact hequal
      · exact hobjects
    exact congrArg some (hconsistent.hashCode_eq _ _ hobjects)

/-- Two modules that carry the name of one type. -/
def twoModulesMemory : CharMemory := fun _ => [105, 0]

/-- The objects of two modules for one type, each with its own address as hash code. -/
def twoModulesClass : TypeInfoClass twoModulesMemory Bool where
  name x := ⟨⟨x.toNat, 0⟩, by simp [Memory.after, twoModulesMemory]⟩
  rawName x := ⟨⟨x.toNat, 0⟩, by simp [Memory.after, twoModulesMemory]⟩
  eq x y := decide (x = y)
  before x y := decide (x < y)
  hashCode := Bool.toNat

/-- The operator `==` of the two modules compares addresses. -/
theorem twoModulesClass_equivalence :
    Equivalence fun x y => twoModulesClass.eq x y = true where
  refl _ := decide_eq_true rfl
  symm h := decide_eq_true (of_decide_eq_true h).symm
  trans h h' := decide_eq_true ((of_decide_eq_true h).trans (of_decide_eq_true h'))

/-- The condition for the two modules where indices are compared by names. -/
theorem equalHash_iff_twoModules :
    (∀ hashCode : Bool → ℕ,
      TypeInfoClass.Consistent { twoModulesClass with hashCode := hashCode } →
        StlTypeIndex.EqualHash ⟨false, true, default⟩ { twoModulesClass with hashCode := hashCode }
          ⟨false⟩ ⟨true⟩) ↔
      ((⟨false, true, default⟩ : StlBuild).compareByNames = false ∨
        ((⟨false⟩ : StlTypeIndex Bool).rawName ⟨false, true, default⟩ twoModulesClass).chars ≠
          ((⟨true⟩ : StlTypeIndex Bool).rawName ⟨false, true, default⟩ twoModulesClass).chars ∨
        twoModulesClass.eq false true = true) :=
  equalHash_iff ⟨false, true, default⟩ twoModulesClass ⟨false⟩ ⟨true⟩ twoModulesClass_equivalence

/-- The indices of the two modules are equal by their names and hash differently. -/
theorem not_equalHash_twoModules :
    TypeInfoClass.Consistent twoModulesClass ∧
      (⟨false⟩ : StlTypeIndex Bool).equal ⟨false, true, default⟩ twoModulesClass ⟨true⟩ = true ∧
      ¬ StlTypeIndex.EqualHash ⟨false, true, default⟩ twoModulesClass ⟨false⟩ ⟨true⟩ := by
  have hequal :
      (⟨false⟩ : StlTypeIndex Bool).equal ⟨false, true, default⟩ twoModulesClass ⟨true⟩ = true := by
    rw [StlTypeIndex.equal_iff, if_pos rfl]
    rfl
  refine ⟨⟨twoModulesClass_equivalence, fun x y h => ?_⟩, hequal, fun h => ?_⟩
  · rw [of_decide_eq_true h]
  · exact absurd (h hequal) (by decide)

end Hash

end TypeIndex
