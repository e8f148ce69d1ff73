import TypeIndex.Registry
import TypeIndex.SearchTree

/-!
# Ordered registries of types

An ordered registry keeps type indices in a search tree and compares them by `<` only. On
both backends it is a set of types without references and top-level qualifiers, whatever
the run and however the tree is rebalanced, and it gives the answers of an unordered one.
-/

namespace TypeIndex

open CMemory HashedSet KeySet SearchTree

variable {α : Type*} {m : CharMemory} {Info : Type*}

/-- The comparison by which an ordered container tells indices apart. -/
def TypeIndexFacade.treeOps {Derived TypeInfo : Type*} (F : TypeIndexFacade m Derived TypeInfo)
    (R : Rebalancing Derived) : TreeOps Derived :=
  { R with less := F.lt }

/-- What is known of the member `before` of `std::type_info`: it places the objects in a
linear order, as far as the operator `==` tells them apart. -/
structure TypeInfoClass.Collates {β : Type*} [LinearOrder β] (C : TypeInfoClass m Info)
    (position : Info → β) : Prop where
  /-- Objects with one place are equal. -/
  eq_iff : ∀ x y, C.eq x y = true ↔ position x = position y
  /-- An object precedes those with a later place. -/
  before_iff : ∀ x y, C.before x y = true ↔ position x < position y

section

variable [DecidableEq α] {β : Type*} [LinearOrder β]

/-- Ordered registries of indices that keys tell apart are sets of stripped types. -/
theorem orderedRun_eq_answers {Derived : Type*} {O : TreeOps Derived} (key : Derived → β)
    (hO : O.Orders key) {typeId : CppType α → Derived}
    (hkey : ∀ T U, key (typeId T) = key (typeId U) ↔ T.core = U.core)
    (cs : List (Command (CppType α))) :
    run O .nil (cs.map (·.map typeId)) =
      answers ∅ (cs.map (·.map fun T => T.removeReference.removeCv)) := by
  have hnil : Sorted key (.nil : BinaryTree Derived) := List.Pairwise.nil
  have hplain : (fun T => key (typeId T)) = fun T => key (typeId (CoreType.plain T.core)) :=
    funext fun T => (hkey T _).mpr rfl
  rw [hnil.run hO, Command.map_map, hplain]
  exact answers_stripped cs
    ⟨fun core => key (typeId core.plain), fun core core' h => (hkey _ _).mp h⟩

/-- Ordered registries of indices over `std::type_info`, which compare names or objects. -/
theorem StlTypeIndex.orderedRun_eq_answers {K : Toolchain α m Info} {build : StlBuild}
    {position : Info → β} (htypeid : K.TypeidStrips build)
    (hcollates : build.compareByNames = false → K.typeInfo.Collates position)
    (R : Rebalancing (StlTypeIndex Info)) (cs : List (Command (CppType α))) :
    run ((facade build K.typeInfo).treeOps R) .nil (cs.map (·.map (typeId K))) =
      answers ∅ (cs.map (·.map fun T => T.removeReference.removeCv)) := by
  have hequal : ∀ T U : CppType α,
      (typeId K T).equal build K.typeInfo (typeId K U) = true ↔ T.core = U.core := by
    intro T U
    refine (equal_typeid htypeid _ _).trans ?_
    rw [T.removeCv_removeReference, U.removeCv_removeReference, CppType.stripped_inj]
  cases hnames : build.compareByNames with
  | false =>
    have hposition := hcollates hnames
    refine TypeIndex.orderedRun_eq_answers (fun x => position x.data) ?_ (fun T U => ?_) cs
    · intro x y
      change x.before build K.typeInfo y = true ↔ _
      rw [before, hnames]
      exact hposition.before_iff x.data y.data
    · rw [← hequal, equal_iff, hnames, if_neg Bool.false_ne_true]
      exact (hposition.eq_iff _ _).symm
  | true =>
    refine TypeIndex.orderedRun_eq_answers
      (fun x => terminatedKeys CharSign.unsigned.toInt (x.rawName build K.typeInfo).chars)
      ?_ (fun T U => ?_) cs
    · intro x y
      change x.before build K.typeInfo y = true ↔ _
      rw [before, hnames]
      exact TypeIndexFacade.inheritedBefore_iff build.strcmp (rawName build K.typeInfo) x y
    · rw [← hequal, equal_iff, if_pos hnames]
      exact (terminatedKeys_injective CharSign.unsigned.toInt_injective).eq_iff

/-- Ordered registries of indices without RTTI, on either path of the comparison. -/
theorem CttiTypeIndex.orderedRun_eq_answers {K : Toolchain α m Info}
    {printed : CppType α → List UInt8} {P : Platform} {path : StrcmpPath}
    (hprinted : K.PrintsDistinct printed) (hpath : P.ResolvesTo m path) (S : CttiSkip)
    (hash : List UInt8 → ℕ) (R : Rebalancing (CttiTypeIndex m))
    (cs : List (Command (CppType α))) :
    run ((facade P S hash).treeOps R) .nil (cs.map (·.map (typeId K))) =
      answers ∅ (cs.map (·.map fun T => T.removeReference.removeCv)) := by
  have hkeyed := facade_keyedBy hpath S hash
  have hless : ((facade P S hash).treeOps R).Orders
      fun d => terminatedKeys (path.key P.charSign) d.rawName.chars := hkeyed.before_iff
  refine TypeIndex.orderedRun_eq_answers _ hless (fun T U => ?_) cs
  rw [← hkeyed.equal_iff, ← CppType.stripped_inj]
  exact equal_n hprinted P _ _

end

/-- Ordered registries of both backends give, through every run and however their trees are
rebalanced, the answers of a set of the types without references and top-level qualifiers.
The raw names of `ctti` may be shorter than an unordered registry needs them. -/
theorem orderedRegistry_answers [DecidableEq α] {β : Type*} [LinearOrder β]
    (K : Toolchain α m Info) (build : StlBuild) (position : Info → β) (P : Platform)
    (path : StrcmpPath) (S : CttiSkip) (hash : List UInt8 → ℕ)
    (printed : CppType α → List UInt8) (htypeid : K.TypeidStrips build)
    (hcollates : build.compareByNames = false → K.typeInfo.Collates position)
    (hprinted : K.PrintsDistinct printed) (hpath : P.ResolvesTo m path)
    (stlTrees : Rebalancing (StlTypeIndex Info)) (cttiTrees : Rebalancing (CttiTypeIndex m))
    (cs : List (Command (CppType α))) :
    run ((StlTypeIndex.facade build K.typeInfo).treeOps stlTrees) .nil
        (cs.map (·.map (StlTypeIndex.typeId K))) =
      answers ∅ (cs.map (·.map fun T => T.removeReference.removeCv)) ∧
    run ((CttiTypeIndex.facade P S hash).treeOps cttiTrees) .nil
        (cs.map (·.map (CttiTypeIndex.typeId K))) =
      answers ∅ (cs.map (·.map fun T => T.removeReference.removeCv)) :=
  ⟨StlTypeIndex.orderedRun_eq_answers htypeid hcollates stlTrees cs,
    CttiTypeIndex.orderedRun_eq_answers hprinted hpath S hash cttiTrees cs⟩

/-- The settings of a platform that compares objects. -/
def byObjectsBuild : StlBuild := ⟨false, false, default⟩

/-- Its member `before` orders types by their numbers. -/
theorem unaryToolchain_collates : unaryToolchain.typeInfo.Collates CppType.code where
  eq_iff _ _ := decide_eq_true_iff.trans CppType.code_injective.eq_iff.symm
  before_iff _ _ := decide_eq_true_iff

/-- A reference to a `const` type finds the type itself after a rotation. -/
theorem orderedRegistry_answers_unary :
    let T : CppType Unit := ⟨.other (), false, false, .none⟩
    let U : CppType Unit := ⟨.other (), true, false, .lvalue⟩
    let V : CppType Unit := ⟨.cvrSaver (.other ()) true false .none, false, false, .none⟩
    let cs : List (Command (CppType Unit)) :=
      [.insert V, .insert T, .reorganize 1, .count U, .erase T, .size]
    run ((StlTypeIndex.facade byObjectsBuild unaryToolchain.typeInfo).treeOps (.rotations _)) .nil
        (cs.map (·.map (StlTypeIndex.typeId unaryToolchain))) =
      answers ∅ (cs.map (·.map fun T => T.removeReference.removeCv)) ∧
    run ((CttiTypeIndex.facade ⟨.signed, default, .constexpr14⟩ (skip .other ⟨0, 0⟩)
          List.length).treeOps (.rotations _)) .nil
        (cs.map (·.map (CttiTypeIndex.typeId unaryToolchain))) =
      answers ∅ (cs.map (·.map fun T => T.removeReference.removeCv)) :=
  orderedRegistry_answers unaryToolchain byObjectsBuild CppType.code
    ⟨.signed, default, .constexpr14⟩ .loop (skip .other ⟨0, 0⟩) List.length _
    ⟨fun _ _ => decide_eq_true_iff, fun h => absurd h Bool.false_ne_true⟩
    (fun _ => unaryToolchain_collates) unaryToolchain_printsDistinct (fun _ _ => rfl)
    (.rotations _) (.rotations _) _

end TypeIndex
