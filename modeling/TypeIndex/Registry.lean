import TypeIndex.Comparison
import TypeIndex.HashedSet
import TypeIndex.Identities

/-!
# Registries of types

A registry is an unordered set of type indices, which hashes them by `hash_value` and
compares them by `==`. On both backends it is a set of types without references and
top-level qualifiers, whatever the run and the choice of buckets. A registry of indices
over `std::type_info` that come from several modules is a set of types as far as the hash
codes follow the names.
-/

namespace TypeIndex

open CMemory HashedSet KeySet

/-- The functions by which `boost::unordered_set` tells indices apart. -/
def TypeIndexFacade.keyOps {m : CharMemory} {Derived TypeInfo : Type*}
    (F : TypeIndexFacade m Derived TypeInfo) : KeyOps Derived where
  equal := F.eq
  hash := F.hashValue

section

variable {α β : Type*} [DecidableEq α] [DecidableEq β]

/-- A type without reference and qualifiers. -/
def CoreType.plain : CoreType α ↪ CppType α where
  toFun core := ⟨core, false, false, .none⟩
  inj' _ _ h := (CppType.mk.inj h).1

/-- Answers that depend on the cores of types, which nothing identifies, are those for the
cores. -/
theorem answers_core (cs : List (Command (CppType α))) (g : CoreType α ↪ β) :
    answers ∅ (cs.map (·.map fun T => g T.core)) = answers ∅ (cs.map (·.map CppType.core)) := by
  rw [← answers_map g, Finset.map_empty, List.map_map]
  congr 2
  funext c
  cases c <;> rfl

/-- They are those for the stripped types as well. -/
theorem answers_stripped (cs : List (Command (CppType α))) (g : CoreType α ↪ β) :
    answers ∅ (cs.map (·.map fun T => g T.core)) =
      answers ∅ (cs.map (·.map fun T => T.removeReference.removeCv)) :=
  (answers_core cs g).trans (answers_core cs CoreType.plain).symm

end

variable {α : Type*} {m : CharMemory} {Info : Type*} {K : Toolchain α m Info} {build : StlBuild}

/-! ## Both backends -/

/-- On names that are long enough the index without RTTI follows its raw name. -/
theorem CttiTypeIndex.keyOps_follows (P : Platform) (S : CttiSkip) (hash : List UInt8 → ℕ) :
    (facade P S hash : TypeIndexFacade m (CttiTypeIndex m) (CttiData m)).keyOps.Follows
      (fun d => d.rawName.chars) (LongEnough S) where
  equal_iff {a b} _ _ := by
    change a.equal P b = true ↔ _
    rw [equal, decide_eq_true_eq, constexprStrcmp_eq_zero]
  hash_eq {a b} ha hb hchars := by
    refine ⟨_, hashCode_of_longEnough ha hash, ?_⟩
    rw [hchars]
    exact hashCode_of_longEnough hb hash

/-- The object that `typeid` gives for a type, up to the operator `==`. -/
def Toolchain.typeClass (K : Toolchain α m Info) (h : K.typeInfo.Consistent)
    (x : StlTypeIndex Info) : Quotient (Setoid.mk _ h.eq_equivalence) :=
  Quotient.mk _ x.data

/-- Indices that `typeid` gives follow the operator `==` of the objects. -/
theorem StlTypeIndex.keyOps_follows (htypeid : K.TypeidStrips build)
    (hconsistent : K.typeInfo.Consistent) :
    (facade build K.typeInfo).keyOps.Follows (K.typeClass hconsistent)
      (fun x => ∃ X, x = ofTypeInfo (K.typeid X)) where
  equal_iff := by
    rintro a b ⟨X, rfl⟩ ⟨Y, rfl⟩
    refine (equal_typeid htypeid X Y).trans ((htypeid.eq_iff X Y).symm.trans ?_)
    exact (Quotient.eq (r := Setoid.mk _ hconsistent.eq_equivalence)).symm
  hash_eq := by
    rintro a b ⟨X, rfl⟩ ⟨Y, rfl⟩ hclass
    have hobjects := Quotient.exact hclass
    refine ⟨_, rfl, ?_⟩
    exact congrArg some (hconsistent.hashCode_eq _ _ hobjects).symm

/-- A registry of the indices of types gives, on both backends and through every run of
insertions, erasures and searches with any choice and any numbers of buckets, the answers
of a set of the types without references and top-level qualifiers. -/
theorem registry_answers [DecidableEq α] (K : Toolchain α m Info) (build : StlBuild) (P : Platform)
    (S : CttiSkip) (hash : List UInt8 → ℕ) (printed : CppType α → List UInt8)
    (htypeid : K.TypeidStrips build) (hconsistent : K.typeInfo.Consistent)
    (hprinted : K.PrintsDistinct printed) (B : Buckets) (last : ℕ)
    (cs : List (Command (CppType α)))
    (hlong : ∀ c ∈ cs, ∀ T ∈ c.keys, (CttiTypeIndex.typeId K T).LongEnough S) :
    (Table.empty last).run ((StlTypeIndex.facade build K.typeInfo).keyOps.withBuckets B)
        (cs.map (·.map (StlTypeIndex.typeId K))) =
      some (answers ∅ (cs.map (·.map fun T => T.removeReference.removeCv))) ∧
    (Table.empty last).run ((CttiTypeIndex.facade P S hash).keyOps.withBuckets B)
        (cs.map (·.map (CttiTypeIndex.typeId K))) =
      some (answers ∅ (cs.map (·.map fun T => T.removeReference.removeCv))) := by
  classical
  constructor
  · have hkeys : ∀ c ∈ cs.map (·.map (StlTypeIndex.typeId K)), ∀ x ∈ c.keys,
        ∃ X, x = StlTypeIndex.ofTypeInfo (K.typeid X) :=
      Command.keys_map fun _ _ T _ => ⟨_, rfl⟩
    rw [(Table.represents_empty last).run (StlTypeIndex.keyOps_follows htypeid hconsistent) hkeys,
      Command.map_map, Option.some.injEq]
    refine answers_stripped cs ⟨fun core => K.typeClass hconsistent
      (StlTypeIndex.ofTypeInfo (K.typeid core.plain)), fun core core' hclass => ?_⟩
    have hobjects := (htypeid.eq_iff _ _).mp (Quotient.exact hclass)
    rwa [CppType.stripped_inj] at hobjects
  · rw [(Table.represents_empty last).run (CttiTypeIndex.keyOps_follows P S hash)
      (Command.keys_map hlong), Command.map_map, Option.some.injEq]
    refine answers_stripped cs ⟨fun core => (K.n core.plain).chars, fun core core' hchars => ?_⟩
    exact CoreType.plain.injective (hprinted.injective (hprinted.rawName _ _ hchars))

/-- Its operator `==` and its hash codes go together. -/
theorem unaryToolchain_consistent : unaryToolchain.typeInfo.Consistent where
  eq_equivalence :=
    { refl := fun _ => decide_eq_true rfl
      symm := fun h => decide_eq_true (of_decide_eq_true h).symm
      trans := fun h h' => decide_eq_true ((of_decide_eq_true h).trans (of_decide_eq_true h')) }
  hashCode_eq _ _ h := congrArg CppType.code (of_decide_eq_true h)

/-- A reference to a `const` type finds the type itself after a rehash. -/
theorem registry_answers_unary :
    let T : CppType Unit := ⟨.other (), false, false, .none⟩
    let U : CppType Unit := ⟨.other (), true, false, .lvalue⟩
    let cs : List (Command (CppType Unit)) := [.insert T, .insert U, .reorganize 6, .count U, .size]
    let ctti := CttiTypeIndex.facade (m := unaryMemory) ⟨.signed, default, .constexpr14⟩
      (skip .other ⟨0, 0⟩) List.length
    let stl := StlTypeIndex.facade byNamesBuild unaryToolchain.typeInfo
    (Table.empty 0).run (stl.keyOps.withBuckets .remainder)
        (cs.map (·.map (StlTypeIndex.typeId unaryToolchain))) =
      some (answers ∅ (cs.map (·.map fun T => T.removeReference.removeCv))) ∧
    (Table.empty 0).run (ctti.keyOps.withBuckets .remainder)
        (cs.map (·.map (CttiTypeIndex.typeId unaryToolchain))) =
      some (answers ∅ (cs.map (·.map fun T => T.removeReference.removeCv))) :=
  registry_answers unaryToolchain byNamesBuild ⟨.signed, default, .constexpr14⟩
    (skip .other ⟨0, 0⟩) List.length _ unaryToolchain_typeidStrips unaryToolchain_consistent
    unaryToolchain_printsDistinct .remainder 0 _ fun _ _ _ _ => Nat.zero_le _

/-! ## Objects of several modules -/

/-- A registry of indices over any objects gives the answers of a set of what `equal`
identifies, through every run with any choice and any numbers of buckets, exactly when
indices are not compared by names or the hash codes of objects follow their names. -/
theorem stlRegistry_answers_iff {β : Type*} [DecidableEq β] (build : StlBuild)
    (C : TypeInfoClass m Info) (hconsistent : C.Consistent) (key : StlTypeIndex Info → β)
    (hkey : ∀ x y : StlTypeIndex Info, x.equal build C y = true ↔ key x = key y) :
    (∀ (B : Buckets) (last : ℕ) (cs : List (Command (StlTypeIndex Info))),
      (Table.empty last).run ((StlTypeIndex.facade build C).keyOps.withBuckets B) cs =
        some (answers ∅ (cs.map (·.map key)))) ↔
    (build.compareByNames = false ∨ ∀ x y : StlTypeIndex Info,
      (x.rawName build C).chars = (y.rawName build C).chars → x.hashCode C = y.hashCode C) := by
  have hruns := Table.run_eq_answers_iff (StlTypeIndex.facade build C).keyOps key
    (fun _ => True) (fun a b _ _ => hkey a b) fun a _ => ⟨_, rfl⟩
  simp only [implies_true, forall_const] at hruns
  rw [hruns]
  have hsame : ∀ x y : StlTypeIndex Info,
      (StlTypeIndex.facade build C).keyOps.hash x = (StlTypeIndex.facade build C).keyOps.hash y ↔
        x.hashCode C = y.hashCode C := fun x y => Option.some_inj
  simp only [hsame, ← hkey, StlTypeIndex.equal_iff]
  cases build.compareByNames with
  | false =>
    refine iff_of_true (fun x y h => ?_) (Or.inl rfl)
    rw [if_neg Bool.false_ne_true] at h
    exact hconsistent.hashCode_eq _ _ h
  | true => simp

/-- Indices of two modules compared by names, whose hash codes are addresses. -/
theorem stlRegistry_answers_iff_twoModules :
    (∀ (B : Buckets) (last : ℕ) (cs : List (Command (StlTypeIndex Bool))),
      (Table.empty last).run
          ((StlTypeIndex.facade byNamesBuild twoModulesClass).keyOps.withBuckets B) cs =
        some (answers ∅ (cs.map (·.map fun x => (x.rawName byNamesBuild twoModulesClass).chars)))) ↔
    (byNamesBuild.compareByNames = false ∨ ∀ x y : StlTypeIndex Bool,
      (x.rawName byNamesBuild twoModulesClass).chars =
        (y.rawName byNamesBuild twoModulesClass).chars →
      x.hashCode twoModulesClass = y.hashCode twoModulesClass) :=
  stlRegistry_answers_iff byNamesBuild twoModulesClass
    ⟨twoModulesClass_equivalence, fun _ _ h => by rw [of_decide_eq_true h]⟩ _ fun x y =>
      (StlTypeIndex.equal_iff byNamesBuild twoModulesClass x y).trans (Iff.of_eq (if_pos rfl))

end TypeIndex
