import TypeIndex.RuntimeCast.Registration
import TypeIndex.RuntimeCast.Chains

/-!
# Run-time type indices

`type_id_runtime` is the operator `typeid` on an object, or a call of a virtual function
that the registration macro defines, in builds without run-time type information. The
operator knows the class of the complete object, the function knows the last class
that carries the macro.
-/

namespace TypeIndex

open CxxObject

/-- Which classes carry the macro, and what the two builds know of a class. -/
structure RuntimeTypes {Class : Type*} (H : Hierarchy Class) (Index : Type*) where
  /-- The classes with `BOOST_TYPE_INDEX_REGISTER_CLASS`. -/
  marked : Class → Bool
  /-- `std::is_polymorphic`. -/
  polymorphic : Class → Bool
  /-- `boost::typeindex::type_id`. -/
  typeId : Class → Index
  /-- The operator `==` on type indices. -/
  equal : Index → Index → Bool
  /-- Type indices are equal exactly for equal classes. -/
  equal_typeId : ∀ {a b}, equal (typeId a) (typeId b) = true ↔ a = b

namespace RuntimeTypes

variable {Class Index : Type*} [DecidableEq Class] {H : Hierarchy Class}
  (M : RuntimeTypes H Index)

/-- The body of `boost_type_index_type_id_runtime_`, which takes the class from the
static type of the pointer. -/
def boostTypeIndexTypeIdRuntime (self : ObjectRef H) : Index := M.typeId self.cls

/-- The operator `typeid` on an object. It evaluates expressions of polymorphic classes
only, and sees the static class of others. -/
def typeidOperator (value : ObjectRef H) : Index :=
  if M.polymorphic value.cls then M.typeId value.object.cls else M.typeId value.cls

/-- `type_id_runtime`, in builds without and with run-time type information. The call of
the virtual function may not compile. -/
def typeIdRuntime (noRtti : Bool) (value : ObjectRef H) : Option Index :=
  if noRtti then (value.virtualCall M.marked).map M.boostTypeIndexTypeIdRuntime
  else some (M.typeidOperator value)

variable {M} {u r : ObjectRef H}

/-- The emulation answers with the class of the function that runs. -/
theorem typeIdRuntime_call (h : u.virtualCall M.marked = some r) :
    M.typeIdRuntime true u = some (M.typeId r.cls) := by
  change (u.virtualCall M.marked).map _ = _
  rw [h]
  rfl

/-- The operator `typeid` answers with the class of the complete object. -/
theorem typeIdRuntime_rtti (h : M.polymorphic u.cls = true) :
    M.typeIdRuntime false u = some (M.typeId u.object.cls) := by
  unfold typeIdRuntime typeidOperator
  rw [h]
  rfl

/-- Where the class of the complete object carries the macro, the emulation knows it. -/
theorem typeIdRuntime_marked {q : ObjectRef H} (h : M.marked u.object.cls = true)
    (hlookup : u.lookup M.marked = some q) :
    M.typeIdRuntime true u = some (M.typeId u.object.cls) :=
  typeIdRuntime_call (ObjectRef.virtualCall_mostDerived h hlookup)

/-- Wherever the call compiles, the emulation answers with a class that carries the macro,
between the class of the complete object and the one that the name designates. It agrees
with run-time type information on objects of polymorphic classes exactly when the class of
the complete object carries the macro. -/
theorem typeIdRuntime_agree_iff (M : RuntimeTypes H Index) (u : ObjectRef H)
    (hcompiles : ∃ r, u.virtualCall M.marked = some r) :
    ∃ answer static c, u.lookup M.marked = some static ∧
      M.typeIdRuntime true u = some answer ∧ answer = M.typeId c ∧ M.marked c = true ∧
      H.IsBaseOf c u.object.cls ∧ H.IsBaseOf static.cls c ∧
      (M.polymorphic u.cls = true → ∃ known, M.typeIdRuntime false u = some known ∧
        (M.equal answer known = true ↔ M.marked u.object.cls = true)) := by
  obtain ⟨r, hcall⟩ := hcompiles
  obtain ⟨hobject, hmarked, static, hlookup, hcontains⟩ := ObjectRef.virtualCall_spec hcall
  have hbase : H.IsBaseOf r.cls u.object.cls := by
    rw [← hobject]
    exact r.inside.isBaseOf
  refine ⟨M.typeId r.cls, static, r.cls, hlookup, typeIdRuntime_call hcall, rfl, hmarked, hbase,
    hcontains.isBaseOf, fun hpolymorphic => ⟨M.typeId u.object.cls,
      typeIdRuntime_rtti hpolymorphic, ?_⟩⟩
  rw [M.equal_typeId]
  constructor
  · intro h
    rwa [← h]
  · intro h
    have hdynamic := ObjectRef.virtualCall_mostDerived h hlookup
    rw [hcall, Option.some.injEq] at hdynamic
    rw [hdynamic]
    rfl

end RuntimeTypes

/-! ## Classes that are registered for casts as well -/

namespace RuntimeClasses

variable {Class Index : Type*} [DecidableEq Class] {H : Hierarchy Class}
  {R : RuntimeClasses H Index} {U T : Class} {u : ClassPtr H U} {p q : ObjectRef H}

/-- The macro `BOOST_TYPE_INDEX_REGISTER_RUNTIME_CLASS` in every class. -/
def runtimeTypes (R : RuntimeClasses H Index) : RuntimeTypes H Index where
  marked _ := true
  polymorphic _ := true
  typeId := R.typeId
  equal := R.equal
  equal_typeId := R.equal_typeId

/-- Every build knows the class of the complete object, through every pointer. -/
theorem typeIdRuntime_runtimeTypes (noRtti : Bool) :
    R.runtimeTypes.typeIdRuntime noRtti p = some (R.typeId p.object.cls) := by
  cases noRtti with
  | true => exact RuntimeTypes.typeIdRuntime_marked rfl (ObjectRef.lookup_self rfl)
  | false => exact RuntimeTypes.typeIdRuntime_rtti rfl

/-- A cast to the class of the complete object ends at the complete object. -/
theorem runtimePointerCast_mostDerived (R : RuntimeClasses H Index)
    (hu : u.target = some p) :
    ∃ v, R.runtimePointerCast p.object.cls u = .ok v ∧ v.target = some p.mostDerived := by
  have hcompiles : H.IsBaseOf p.object.cls U → H.UnambiguousBase p.object.cls U := by
    intro hbase
    have hsame : U = p.object.cls := by
      by_contra hne
      have hinside := p.inside.isBaseOf
      rw [show p.subobject.cls = U from u.cls_eq p hu] at hinside
      have hle := hbase.declared_le
      have hlt := hinside.declared_lt hne
      exact absurd hlt (Nat.not_lt.mpr hle)
    rw [hsame]
    exact Hierarchy.unambiguousBase_self _
  obtain ⟨v, hv, hnone, htarget⟩ := R.runtimePointerCast_object hu hcompiles
  refine ⟨v, hv, ?_⟩
  cases hq : v.target with
  | none => exact absurd (Hierarchy.IsBaseOf.refl _) (hnone.mp hq)
  | some q =>
    obtain ⟨hobject, hcls⟩ := htarget q hq
    have hinside : H.Contains (.complete p.object.cls) q.subobject := by
      rw [← hobject]
      exact q.inside
    exact congrArg some (ObjectRef.ext hobject (hinside.eq_of_cls_eq hcls))

/-- Casts keep the run-time type. Wherever a chain of casts ends at an object, all builds
answer with the class with which that object was created, and the answer equals the
index of a class exactly when a cast to the class ends at the complete object. -/
theorem typeIdRuntime_castChain (R : RuntimeClasses H Index) (u : ClassPtr H U)
    (Ts : List Class) {w : Σ c, ClassPtr H c} (hu : u.target = some p)
    (hw : castChain R.runtimePointerCast ⟨U, u⟩ Ts = .ok w) (hq : w.2.target = some q)
    (noRtti : Bool) :
    ∃ answer, R.runtimeTypes.typeIdRuntime noRtti q = some answer ∧
      R.runtimeTypes.typeIdRuntime noRtti p = some answer ∧ answer = R.typeId p.object.cls ∧
      ∀ T, R.equal answer (R.typeId T) = true ↔
        ∃ v, R.runtimePointerCast T w.2 = .ok v ∧ v.target = some q.mostDerived := by
  have hobject := castChain_object hu hw hq
  refine ⟨R.typeId p.object.cls, ?_, typeIdRuntime_runtimeTypes noRtti, rfl, fun T => ?_⟩
  · rw [typeIdRuntime_runtimeTypes, hobject]
  · rw [R.equal_typeId]
    constructor
    · rintro rfl
      rw [← hobject]
      exact R.runtimePointerCast_mostDerived hq
    · rintro ⟨v, -, hv⟩
      rw [← v.cls_eq _ hv, ← hobject]
      rfl

end RuntimeClasses

/-! ### A class without the macro -/

/-- The classes of which only `leaf` lacks the macro. -/
def linearTypes : RuntimeTypes linearHierarchy LinearClass :=
  { linearClasses.runtimeTypes with marked := fun c => !decide (c = .leaf) }

/-- The object of class `derived` in a `leaf`. -/
def leafDerived : ObjectRef linearHierarchy := leafObject.base .derived (by decide)

/-- The call through it runs the function of `derived`. -/
theorem leafDerived_virtualCall :
    leafDerived.virtualCall linearTypes.marked = some leafDerived := by
  refine ObjectRef.virtualCall_eq_some.mpr ⟨rfl, leafDerived, ObjectRef.lookup_self rfl, ?_⟩
  refine Hierarchy.dominant_eq_some.mpr (.of_bases rfl ?_ (.self ?_))
  · simp [linearTypes, leafDerived, leafObject, ObjectRef.base, ObjectRef.inner]
  · rw [Bool.and_eq_true]
    exact ⟨rfl, decide_eq_true (Hierarchy.Contains.refl _)⟩

/-- The emulation takes the `leaf` for a `derived`, run-time type information does not. -/
theorem typeIdRuntime_agree_iff_leaf :
    ∃ answer static c, leafDerived.lookup linearTypes.marked = some static ∧
      linearTypes.typeIdRuntime true leafDerived = some answer ∧ answer = linearTypes.typeId c ∧
      linearTypes.marked c = true ∧ linearHierarchy.IsBaseOf c leafDerived.object.cls ∧
      linearHierarchy.IsBaseOf static.cls c ∧
      (linearTypes.polymorphic leafDerived.cls = true →
        ∃ known, linearTypes.typeIdRuntime false leafDerived = some known ∧
        (linearTypes.equal answer known = true ↔
          linearTypes.marked leafDerived.object.cls = true)) :=
  linearTypes.typeIdRuntime_agree_iff leafDerived ⟨_, leafDerived_virtualCall⟩

/-- Behind the casts to `base` and on to `leaf` the object is still the `leaf`. -/
theorem typeIdRuntime_castChain_leaf :
    ∃ (w : Σ c, ClassPtr linearHierarchy c) (q : ObjectRef linearHierarchy),
      castChain linearClasses.runtimePointerCast ⟨.derived, leafDerived.toPtr rfl⟩
        [.base, .leaf] = .ok w ∧ w.2.target = some q ∧
      ∃ answer, linearClasses.runtimeTypes.typeIdRuntime true q = some answer ∧
        linearClasses.runtimeTypes.typeIdRuntime true leafDerived = some answer ∧
        answer = linearClasses.typeId leafDerived.object.cls ∧
        ∀ T, linearClasses.equal answer (linearClasses.typeId T) = true ↔
          ∃ v, linearClasses.runtimePointerCast T w.2 = .ok v ∧
            v.target = some q.mostDerived := by
  obtain ⟨v, p, hv, hp, hobject⟩ := linearClasses.exists_runtimePointerCast (T := .base)
    (u := leafDerived.toPtr rfl) rfl (fun _ => linear_unambiguous .derived .base (by decide))
    linear_unambiguous_leaf.isBaseOf
  have hleaf : linearHierarchy.IsBaseOf .leaf p.object.cls := by
    rw [hobject]
    exact .refl _
  have hsearch : ¬ linearHierarchy.IsBaseOf .leaf .base := fun h =>
    absurd h.declared_le (by decide)
  obtain ⟨w, q, hw, hq, -⟩ := linearClasses.exists_runtimePointerCast (T := .leaf) hp
    (fun h => absurd h hsearch) hleaf
  have hchain : castChain linearClasses.runtimePointerCast ⟨.derived, leafDerived.toPtr rfl⟩
      [.base, .leaf] = .ok ⟨.leaf, w⟩ :=
    castChain_cons_eq_ok.mpr ⟨v, hv, castChain_cons_eq_ok.mpr ⟨w, hw, rfl⟩⟩
  exact ⟨⟨.leaf, w⟩, q, hchain, hq,
    linearClasses.typeIdRuntime_castChain (leafDerived.toPtr rfl) _ rfl hchain hq true⟩

end TypeIndex
