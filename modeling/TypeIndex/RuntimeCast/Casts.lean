import TypeIndex.RuntimeCast.Search

/-!
# The casts

Every entry point chooses at compile time between the implicit conversion and the
search. The choice tests the template argument as it was written, which is a class for
`runtime_pointer_cast` and a pointer or a reference for `runtime_cast`, and a pointer or
a reference is never a base. The conversion stays inside the source object. The search
knows only the complete object and the registrations.
-/

namespace TypeIndex

open CxxObject

/-- Reasons for a cast to have no result. -/
inductive CastError
  /-- A conversion to an ambiguous base does not compile. -/
  | illFormed
  /-- A virtual call through a null pointer is undefined. -/
  | nullCall
  /-- A `static_cast` to a class that the object does not have is undefined. -/
  | wrongClass
  /-- The exception of the reference form. -/
  | badRuntimeCast
  deriving DecidableEq, Repr

/-- A template argument: a class, or a pointer or reference to one. -/
inductive CastArgument (Class : Type*)
  | plain (c : Class)
  | pointer (c : Class)
  | reference (c : Class)

/-- `std::is_base_of`, which holds between classes only. -/
def CastArgument.isBaseOf {Class : Type*} [DecidableEq Class] (H : Hierarchy Class) :
    CastArgument Class → CastArgument Class → Bool
  | .plain T, .plain U => H.isBaseOf T U
  | _, _ => false

/-- A `shared_ptr<c>`. -/
structure SharedPtr {Class : Type*} (H : Hierarchy Class) (c : Class) where
  /-- The owned object's control block, unless the pointer is empty. -/
  owner : Option ℕ
  /-- The stored pointer. -/
  stored : ClassPtr H c

/-- The empty `shared_ptr`. -/
def SharedPtr.empty {Class : Type*} (H : Hierarchy Class) (c : Class) : SharedPtr H c :=
  ⟨none, .null H c⟩

/-- The constructor that shares ownership and stores another pointer. -/
def SharedPtr.aliasing {Class : Type*} {H : Hierarchy Class} {b c : Class} (u : SharedPtr H b)
    (value : ClassPtr H c) : SharedPtr H c :=
  ⟨u.owner, value⟩

/-- A `static_cast` from `void const*`. -/
def staticCast {Class : Type*} [DecidableEq Class] {H : Hierarchy Class} (T : Class) :
    Option (ObjectRef H) → Except CastError (ClassPtr H T)
  | none => .ok (.null H T)
  | some p => if h : p.cls = T then .ok (p.toPtr h) else .error .wrongClass

namespace RuntimeClasses

variable {Class Index : Type*} [DecidableEq Class] {H : Hierarchy Class}
  (R : RuntimeClasses H Index) {U : Class} (T : Class)

/-- The overloads of `runtime_cast_impl`, told apart by an integral constant. -/
def runtimeCastImpl (u : ClassPtr H U) : Bool → Except CastError (ClassPtr H T)
  | true => if H.isUnambiguousBase T U then .ok (u.upcast T) else .error .illFormed
  | false =>
    match u.target with
    | none => .error .nullCall
    | some p => staticCast T (R.callFindInstance (R.typeId T) p)

/-- `runtime_cast<T*>(u)` for a pointer. -/
def runtimeCastPointer (u : ClassPtr H U) : Except CastError (ClassPtr H T) :=
  R.runtimeCastImpl T u (CastArgument.isBaseOf H (.pointer T) (.plain U))

/-- `runtime_pointer_cast<T>(u)` for a pointer. -/
def runtimePointerCast (u : ClassPtr H U) : Except CastError (ClassPtr H T) :=
  R.runtimeCastImpl T u (CastArgument.isBaseOf H (.plain T) (.plain U))

/-- `runtime_cast<T&>(u)` for a reference. -/
def runtimeCastReference (u : ObjectRef H) : Except CastError (ObjectRef H) := do
  let value ← R.runtimeCastImpl T (u.toPtr rfl)
    (CastArgument.isBaseOf H (.reference T) (.plain u.cls))
  match value.target with
  | none => .error .badRuntimeCast
  | some p => .ok p

/-- The body that the casts of shared pointers have in common. -/
def sharedPointerCast (u : SharedPtr H U) : Except CastError (SharedPtr H T) := do
  let value ← R.runtimeCastImpl T u.stored (CastArgument.isBaseOf H (.plain T) (.plain U))
  return if value.target.isSome then u.aliasing value else .empty H T

/-- `runtime_pointer_cast<T>(u)` for a `std::shared_ptr`. -/
def stdRuntimePointerCast (u : SharedPtr H U) : Except CastError (SharedPtr H T) :=
  R.sharedPointerCast T u

/-- `runtime_pointer_cast<T>(u)` for a `boost::shared_ptr`. -/
def boostRuntimePointerCast (u : SharedPtr H U) : Except CastError (SharedPtr H T) :=
  R.sharedPointerCast T u

variable {T} {u t : ObjectRef H}

/-! ## The two paths -/

/-- Between classes the test is that of the hierarchy. -/
theorem isBaseOf_plain {b c : Class} :
    CastArgument.isBaseOf H (.plain b) (.plain c) = true ↔ H.IsBaseOf b c :=
  Hierarchy.isBaseOf_eq_true

/-- A `static_cast` of a subobject of the class asked for is valid. -/
theorem staticCast_target {p : Option (ObjectRef H)} (h : ∀ q, p = some q → q.cls = T) :
    ∃ result, staticCast T p = .ok result ∧ result.target = p := by
  cases p with
  | none => exact ⟨.null H T, rfl, rfl⟩
  | some q => exact ⟨q.toPtr (h q rfl), dif_pos (h q rfl), rfl⟩

/-- The search path never fails on an object, and points to what the search returns. -/
theorem runtimeCastImpl_search (R : RuntimeClasses H Index) (u : ObjectRef H) (h : u.cls = U) :
    ∃ result, R.runtimeCastImpl T (u.toPtr h) false = .ok result ∧
      result.target = R.callFindInstance (R.typeId T) u :=
  staticCast_target fun _ hq => (target_of_callFindInstance hq).2

/-- `runtime_pointer_cast` to a base is the implicit conversion, which an ambiguous base
does not have. -/
theorem runtimePointerCast_eq_ok_iff (R : RuntimeClasses H Index) {u : ClassPtr H U}
    {v : ClassPtr H T} (hbase : H.IsBaseOf T U) :
    R.runtimePointerCast T u = .ok v ↔ H.UnambiguousBase T U ∧ v = u.upcast T := by
  unfold runtimePointerCast
  rw [isBaseOf_plain.mpr hbase]
  change (if H.isUnambiguousBase T U = true then _ else _) = _ ↔ _
  by_cases hunambiguous : H.UnambiguousBase T U
  · rw [if_pos (Hierarchy.isUnambiguousBase_eq_true.mpr hunambiguous), Except.ok.injEq]
    exact ⟨fun h => ⟨hunambiguous, h.symm⟩, fun h => h.2.symm⟩
  · rw [if_neg fun h => hunambiguous (Hierarchy.isUnambiguousBase_eq_true.mp h)]
    exact iff_of_false (fun h => by cases h) fun h => hunambiguous h.1

/-- `runtime_pointer_cast` searches for a class that is no base of the static class. -/
theorem runtimePointerCast_search (R : RuntimeClasses H Index) (hbase : ¬ H.IsBaseOf T u.cls) :
    ∃ result, R.runtimePointerCast T (u.toPtr rfl) = .ok result ∧
      result.target = R.callFindInstance (R.typeId T) u := by
  unfold runtimePointerCast
  rw [Bool.eq_false_iff.mpr fun h => hbase (isBaseOf_plain.mp h)]
  exact R.runtimeCastImpl_search u rfl

/-! ## Identity and upward casts -/

/-- All entry points succeed on an object and designate a given one; the shared pointers
share ownership with their source. -/
structure CastsYield (R : RuntimeClasses H Index) (T : Class) (u t : ObjectRef H) : Prop where
  /-- The pointer form of `runtime_cast`. -/
  pointer : ∃ result, R.runtimeCastPointer T (u.toPtr rfl) = .ok result ∧ result.target = some t
  /-- The reference form of `runtime_cast`. -/
  reference : R.runtimeCastReference T u = .ok t
  /-- `runtime_pointer_cast` on pointers. -/
  pointerCast : ∃ result, R.runtimePointerCast T (u.toPtr rfl) = .ok result ∧
    result.target = some t
  /-- `runtime_pointer_cast` on `std::shared_ptr`. -/
  stdCast : ∀ owner, ∃ result, R.stdRuntimePointerCast T ⟨owner, u.toPtr rfl⟩ = .ok result ∧
    result.owner = owner ∧ result.stored.target = some t
  /-- `runtime_pointer_cast` on `boost::shared_ptr`. -/
  boostCast : ∀ owner, ∃ result, R.boostRuntimePointerCast T ⟨owner, u.toPtr rfl⟩ = .ok result ∧
    result.owner = owner ∧ result.stored.target = some t

/-- The static path yields what the implicit conversion designates. -/
theorem runtimePointerCast_upcast (R : RuntimeClasses H Index)
    (hbase : H.UnambiguousBase T u.cls) (ht : u.upcast T = some t) :
    ∃ result, R.runtimeCastImpl T (u.toPtr rfl)
      (CastArgument.isBaseOf H (.plain T) (.plain u.cls)) = .ok result ∧
      result.target = some t := by
  refine ⟨(u.toPtr rfl).upcast T, ?_, ht⟩
  exact (R.runtimePointerCast_eq_ok_iff hbase.isBaseOf).mpr ⟨hbase, rfl⟩

/-- A shared pointer shares ownership with its source when the cast succeeds. -/
theorem sharedPointerCast_of_some (R : RuntimeClasses H Index) {value : ClassPtr H T}
    (owner : Option ℕ)
    (hvalue : R.runtimeCastImpl T (u.toPtr rfl)
      (CastArgument.isBaseOf H (.plain T) (.plain u.cls)) = .ok value)
    (ht : value.target = some t) :
    ∃ result, R.sharedPointerCast T ⟨owner, u.toPtr rfl⟩ = .ok result ∧
      result.owner = owner ∧ result.stored.target = some t := by
  refine ⟨⟨owner, value⟩, ?_, rfl, ht⟩
  unfold sharedPointerCast
  rw [hvalue]
  change Except.ok (if value.target.isSome then _ else _) = _
  rw [ht]
  rfl

/-- For an upward cast the entry points agree exactly when the search finds what the
implicit conversion designates. -/
theorem castsYield_iff_search (R : RuntimeClasses H Index) (hbase : H.UnambiguousBase T u.cls)
    (ht : u.upcast T = some t) :
    R.CastsYield T u t ↔ R.callFindInstance (R.typeId T) u = some t := by
  obtain ⟨found, hfound, htarget⟩ := R.runtimeCastImpl_search (T := T) u rfl
  constructor
  · intro h
    obtain ⟨result, hresult, hsome⟩ := h.pointer
    cases hfound.symm.trans hresult
    exact htarget.symm.trans hsome
  · intro h
    obtain ⟨value, hvalue, hsome⟩ := R.runtimePointerCast_upcast hbase ht
    refine ⟨⟨found, hfound, htarget.trans h⟩, ?_, ⟨value, hvalue, hsome⟩,
      fun owner => R.sharedPointerCast_of_some owner hvalue hsome,
      fun owner => R.sharedPointerCast_of_some owner hvalue hsome⟩
    have hreference : R.runtimeCastImpl T (u.toPtr rfl)
        (CastArgument.isBaseOf H (.reference T) (.plain u.cls)) = .ok found := hfound
    unfold runtimeCastReference
    rw [hreference]
    change (match found.target with | none => _ | some p => Except.ok p) = _
    rw [htarget, h]

/-- Identity and upward casts: every entry point succeeds and designates what the
implicit conversion yields exactly when the subobject of class `T` that is listed first
in the complete object lies in the source object. -/
theorem castsYield_upcast_iff (R : RuntimeClasses H Index) (u : ObjectRef H) (T : Class)
    (hbase : H.UnambiguousBase T u.cls) :
    (∃ t, u.upcast T = some t ∧ R.CastsYield T u t) ↔
      ∃ s, R.FirstListed T (.complete u.object.cls) s ∧ H.Contains u.subobject s := by
  constructor
  · rintro ⟨t, ht, hyield⟩
    obtain ⟨hobject, hupcast⟩ := ObjectRef.upcast_eq_some_iff.mp ht
    have hsearch := (R.castsYield_iff_search hbase ht).mp hyield
    exact ⟨t.subobject, (R.callFindInstance_eq_some_iff.mp hsearch).2,
      (Hierarchy.contains_of_upcast hupcast).1⟩
  · rintro ⟨s, hlisted, hcontains⟩
    have ht : u.upcast T = some (u.inner s hcontains) := ObjectRef.upcast_eq_some_iff.mpr
      ⟨rfl, (Hierarchy.upcast_eq_some hbase).mpr ⟨hcontains, hlisted.contains.2⟩⟩
    refine ⟨_, ht, (R.castsYield_iff_search hbase ht).mpr ?_⟩
    exact R.callFindInstance_eq_some_iff.mpr ⟨rfl, hlisted⟩

end RuntimeClasses

/-! ### A class that is a base twice -/

/-- Classes of which `joined` inherits `derived`, and with it `base`, twice. -/
inductive RepeatedClass
  | base
  | derived
  | left
  | right
  | joined
  deriving DecidableEq, Repr

/-- `struct derived : base`, `struct left : derived`, `struct right : derived` and
`struct joined : left, right`. -/
def repeatedHierarchy : Hierarchy RepeatedClass where
  bases
    | .base => []
    | .derived => [.base]
    | .left => [.derived]
    | .right => [.derived]
    | .joined => [.left, .right]
  isVirtual _ _ := false
  nodup c := by cases c <;> decide
  declared
    | .base => 0
    | .derived => 1
    | .left => 2
    | .right => 3
    | .joined => 4
  declared_lt {b c} h := by
    revert h
    cases b <;> cases c <;> decide

/-- The registration that lists the bases as they are declared. -/
def repeatedClasses : RuntimeClasses repeatedHierarchy RepeatedClass where
  registered := repeatedHierarchy.bases
  registered_perm _ := List.Perm.refl _
  typeId := id
  equal a b := decide (a = b)
  equal_typeId := decide_eq_true_iff

/-- An object of class `joined`. -/
def joinedObject : ObjectRef repeatedHierarchy := ⟨⟨0, .joined⟩, .complete .joined, .refl _⟩

/-- Its subobject of class `derived` in `left`. -/
def leftDerived : ObjectRef repeatedHierarchy :=
  (joinedObject.base .left (by decide)).base .derived (by decide)

/-- Its subobject of class `derived` in `right`. -/
def rightDerived : ObjectRef repeatedHierarchy :=
  (joinedObject.base .right (by decide)).base .derived (by decide)

/-- The subobject of class `base` in that one. -/
def rightBase : ObjectRef repeatedHierarchy := rightDerived.base .base (by decide)

/-- The two subobjects of class `derived` differ. -/
theorem leftDerived_ne_rightDerived : leftDerived ≠ rightDerived := by
  intro h
  have hsubobject := congrArg ObjectRef.subobject h
  revert hsubobject
  decide

/-- The search through any pointer into the object returns the subobject in `left`. -/
theorem repeated_search {u : ObjectRef repeatedHierarchy} (h : u.object = joinedObject.object) :
    repeatedClasses.callFindInstance (repeatedClasses.typeId .derived) u = some leftDerived := by
  refine repeatedClasses.callFindInstance_eq_some_iff.mpr ⟨h.symm, ?_⟩
  rw [h]
  have hjoined : repeatedClasses.registered .joined = [] ++ .left :: [.right] := rfl
  have hleft : repeatedClasses.registered .left = [] ++ .derived :: [] := rfl
  have hlisted : repeatedClasses.FirstListed .derived ⟨.left, [.joined]⟩ leftDerived.subobject :=
    .base (by decide) hleft (by simp) (.here rfl)
  exact .base (by decide) hjoined (by simp) hlisted

/-- The condition for an identity cast through the subobject in `right`. -/
theorem castsYield_upcast_iff_repeated :
    (∃ t, rightDerived.upcast .derived = some t ∧
        repeatedClasses.CastsYield .derived rightDerived t) ↔
      ∃ s, repeatedClasses.FirstListed .derived (.complete rightDerived.object.cls) s ∧
        repeatedHierarchy.Contains rightDerived.subobject s :=
  repeatedClasses.castsYield_upcast_iff rightDerived .derived (Hierarchy.unambiguousBase_self _)

/-- An identity cast through the subobject in `right` ends in `left`. -/
theorem not_castsYield_repeated :
    repeatedHierarchy.UnambiguousBase .derived rightDerived.cls ∧
      rightDerived.upcast .derived = some rightDerived ∧
      (∃ result, repeatedClasses.runtimeCastPointer .derived (rightDerived.toPtr rfl) =
        .ok result ∧ result.target = some leftDerived) ∧
      ¬ ∃ t, rightDerived.upcast .derived = some t ∧
        repeatedClasses.CastsYield .derived rightDerived t := by
  have hbase : repeatedHierarchy.UnambiguousBase .derived rightDerived.cls :=
    Hierarchy.unambiguousBase_self _
  have hsearch := repeated_search (u := rightDerived) rfl
  have hupcast : rightDerived.upcast .derived = some rightDerived :=
    ObjectRef.upcast_eq_some_iff.mpr
      ⟨rfl, (Hierarchy.upcast_eq_some hbase).mpr ⟨.refl _, rfl⟩⟩
  obtain ⟨result, hresult, htarget⟩ :=
    repeatedClasses.runtimeCastImpl_search (T := .derived) rightDerived rfl
  refine ⟨hbase, hupcast, ⟨result, hresult, htarget.trans hsearch⟩, ?_⟩
  rintro ⟨t, ht, hyield⟩
  have hfound := (repeatedClasses.castsYield_iff_search hbase ht).mp hyield
  have hleft := Option.some.inj (hsearch.symm.trans hfound)
  have hright := Option.some.inj (hupcast.symm.trans ht)
  exact leftDerived_ne_rightDerived (hleft.trans hright.symm)

namespace RuntimeClasses

variable {Class Index : Type*} [DecidableEq Class] {H : Hierarchy Class}

/-! ## Downward and sideways casts -/

/-- Downward and sideways casts emulate `dynamic_cast` exactly when the complete object
has no second subobject of class `T`, or when one subobject of class `T` contains the
source object and is the one listed first. -/
theorem runtimePointerCast_dynamicCast_iff (R : RuntimeClasses H Index) (u : ObjectRef H)
    (T : Class) (hbase : ¬ H.IsBaseOf T u.cls) :
    (∃ result, R.runtimePointerCast T (u.toPtr rfl) = .ok result ∧
      ObjectRef.DynamicCast T u result) ↔
    (∀ t t', ObjectRef.Target T u t → ObjectRef.Target T u t' → t = t') ∨
      ∃ t, R.FirstListed T (.complete u.object.cls) t.subobject ∧ ObjectRef.Around T u t ∧
        ∀ t', ObjectRef.Around T u t' → t' = t := by
  obtain ⟨found, hcast, htarget⟩ := R.runtimePointerCast_search hbase
  have hresult : (∃ result, R.runtimePointerCast T (u.toPtr rfl) = .ok result ∧
      ObjectRef.DynamicCast T u result) ↔
      ∀ q, R.callFindInstance (R.typeId T) u = some q ↔ ObjectRef.Selected T u q := by
    rw [← htarget]
    constructor
    · rintro ⟨result, hresult, hdynamic⟩
      cases hcast.symm.trans hresult
      exact hdynamic
    · intro h
      exact ⟨found, hcast, h⟩
  rw [hresult]
  constructor
  · intro hselected
    by_cases htwo : ∀ t t', ObjectRef.Target T u t → ObjectRef.Target T u t' → t = t'
    · exact Or.inl htwo
    · refine Or.inr ?_
      cases hsearch : R.callFindInstance (R.typeId T) u with
      | none =>
        refine absurd (fun t t' ht _ => ?_) htwo
        exact absurd ht (R.not_target_of_callFindInstance hsearch t)
      | some t =>
        rcases (hselected t).mp hsearch with ⟨haround, hunique⟩ | ⟨-, htarget, hunique⟩
        · exact ⟨t, (R.callFindInstance_eq_some_iff.mp hsearch).2, haround, hunique⟩
        · exact absurd (fun s s' hs hs' => (hunique s hs).trans (hunique s' hs').symm) htwo
  · rintro (hone | ⟨t, hlisted, haround, hunique⟩) q
    · constructor
      · intro hsearch
        have hq := target_of_callFindInstance hsearch
        by_cases haround : ∃! q', ObjectRef.Around T u q'
        · obtain ⟨q', hq', hunique⟩ := haround
          rw [hone q q' hq hq'.1]
          exact Or.inl ⟨hq', hunique⟩
        · exact Or.inr ⟨haround, hq, fun q' hq' => hone q' q hq' hq⟩
      · intro hq
        cases hsearch : R.callFindInstance (R.typeId T) u with
        | none => exact absurd hq.target (R.not_target_of_callFindInstance hsearch q)
        | some p => rw [hone p q (target_of_callFindInstance hsearch) hq.target]
    · have hsearch : R.callFindInstance (R.typeId T) u = some t :=
        R.callFindInstance_eq_some_iff.mpr ⟨haround.1.1, hlisted⟩
      have ht : ObjectRef.Selected T u t := Or.inl ⟨haround, hunique⟩
      rw [hsearch, Option.some.injEq]
      constructor
      · rintro rfl
        exact ht
      · exact ht.unique

end RuntimeClasses

/-- `derived` is no base of `base`. -/
theorem not_isBaseOf_rightBase : ¬ repeatedHierarchy.IsBaseOf .derived rightBase.cls := by
  intro h
  have hle := h.declared_le
  revert hle
  decide

/-- The condition for a downward cast from the subobject of class `base` in `right`. -/
theorem runtimePointerCast_dynamicCast_iff_repeated :
    (∃ result, repeatedClasses.runtimePointerCast .derived (rightBase.toPtr rfl) = .ok result ∧
      ObjectRef.DynamicCast .derived rightBase result) ↔
    (∀ t t', ObjectRef.Target .derived rightBase t → ObjectRef.Target .derived rightBase t' →
      t = t') ∨
      ∃ t, repeatedClasses.FirstListed .derived (.complete rightBase.object.cls) t.subobject ∧
        ObjectRef.Around .derived rightBase t ∧
        ∀ t', ObjectRef.Around .derived rightBase t' → t' = t :=
  repeatedClasses.runtimePointerCast_dynamicCast_iff rightBase .derived not_isBaseOf_rightBase

/-- A downward cast from the subobject of class `base` in `right` ends in `left`, although
the only object of class `derived` around it is the one in `right`. -/
theorem not_dynamicCast_repeated :
    ¬ repeatedHierarchy.IsBaseOf .derived rightBase.cls ∧
      (ObjectRef.Around .derived rightBase rightDerived ∧
        ∀ t, ObjectRef.Around .derived rightBase t → t = rightDerived) ∧
      (∃ result, repeatedClasses.runtimePointerCast .derived (rightBase.toPtr rfl) =
        .ok result ∧ result.target = some leftDerived) ∧
      ¬ ∃ result, repeatedClasses.runtimePointerCast .derived (rightBase.toPtr rfl) =
        .ok result ∧ ObjectRef.DynamicCast .derived rightBase result := by
  have haround : ObjectRef.Around .derived rightBase rightDerived :=
    ⟨⟨rfl, rfl⟩, Hierarchy.contains_base (by decide)⟩
  have hunique : ∀ t, ObjectRef.Around .derived rightBase t → t = rightDerived := by
    rintro t ⟨⟨hobject, hcls⟩, hcontains⟩
    refine ObjectRef.ext hobject ?_
    obtain ⟨object, ⟨cls, enclosing⟩, inside⟩ := t
    change cls = .derived at hcls
    subst hcls
    have hne : (⟨.derived, enclosing⟩ : Subobject RepeatedClass) ≠ rightBase.subobject := by
      intro h
      cases congrArg Subobject.cls h
    obtain ⟨b, hb, hin⟩ := (Hierarchy.contains_iff.mp hcontains).resolve_left hne
    obtain rfl := List.mem_singleton.mp hb
    have hsame := hin.eq_of_cls_eq rfl
    have henclosing : [.derived, .right, .joined] = RepeatedClass.derived :: enclosing :=
      congrArg Subobject.enclosing hsame
    cases henclosing
    rfl
  obtain ⟨result, hresult, htarget⟩ :=
    repeatedClasses.runtimePointerCast_search not_isBaseOf_rightBase
  have hsearch := repeated_search (u := rightBase) rfl
  rw [hsearch] at htarget
  refine ⟨not_isBaseOf_rightBase, ⟨haround, hunique⟩, ⟨result, hresult, htarget⟩, ?_⟩
  rintro ⟨other, hother, hdynamic⟩
  cases hresult.symm.trans hother
  have hright := (hdynamic rightDerived).mpr (Or.inl ⟨haround, hunique⟩)
  exact leftDerived_ne_rightDerived (Option.some.inj (htarget.symm.trans hright))

end TypeIndex
