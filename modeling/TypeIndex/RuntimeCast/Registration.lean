import TypeIndex.CxxObject.Dispatch
import TypeIndex.RuntimeCast.Casts

/-!
# Searches under incomplete registrations

A class may lack the registration macro or list only some of its bases, and it may list
indirect ones. A class without the macro inherits the function of a base, and a call
with a qualified name then runs the function of a base of the class named. Whatever
the registrations are, the search stays in the complete object and returns subobjects
with the name looked for; it finds the names that the registrations lead to.
-/

namespace TypeIndex

open CxxObject

/-- The registrations of a program: any classes may carry the macro, with any proper bases as
arguments for which it compiles. A class that names itself is left out. It compiles too, but
a search that gets to itself never ends. -/
structure Registrations {Class : Type*} [DecidableEq Class] (H : Hierarchy Class)
    (Index : Type*) where
  /-- The arguments of `BOOST_TYPE_INDEX_IMPLEMENT_RUNTIME_CAST` in a class that has it. -/
  arguments : Class → Option (List Class)
  /-- The pointer converts to the classes named, which are proper bases. -/
  arguments_base : ∀ c, ∀ b ∈ (arguments c).getD [], H.UnambiguousBase b c ∧ b ≠ c
  /-- The function has one declaration in the classes named. -/
  arguments_lookup : ∀ c, ∀ b ∈ (arguments c).getD [],
    ∃ t, H.lookup (fun d => (arguments d).isSome) (.complete b) = some t
  /-- `boost::typeindex::type_id`. -/
  typeId : Class → Index
  /-- The operator `==` on type indices. -/
  equal : Index → Index → Bool

namespace Registrations

variable {Class Index : Type*} [DecidableEq Class] {H : Hierarchy Class}
  (R : Registrations H Index)

/-- Whether a class declares the search function. -/
def declares (c : Class) : Bool := (R.arguments c).isSome

/-- The classes that the function of a class asks. -/
def listed (c : Class) : List Class := (R.arguments c).getD []

/-- The calls in the function of a class compile. -/
theorem exists_callee (self : ObjectRef H) {b : Class} (hb : b ∈ R.listed self.cls) :
    ∃ q, self.qualifiedCall R.declares b = some q ∧
      ∃ t, H.lookup R.declares (.complete b) = some t ∧ q.cls = t.cls := by
  obtain ⟨t, ht⟩ := R.arguments_lookup self.cls b hb
  obtain ⟨q, hq, hcls⟩ := ObjectRef.exists_qualifiedCall (R.arguments_base self.cls b hb).1 ht
  exact ⟨q, hq, t, ht, hcls⟩

/-- The object that the call `self->Base::boost_type_index_find_instance_` runs on. -/
def callee (self : ObjectRef H) (Base : Class) (h : Base ∈ R.listed self.cls) : ObjectRef H :=
  (self.qualifiedCall R.declares Base).get <| by
    obtain ⟨q, hq, -⟩ := R.exists_callee self h
    rw [hq]
    rfl

section Callee

variable {R} {self : ObjectRef H} {b : Class}

/-- The callee is the object of the qualified call. -/
theorem qualifiedCall_eq_callee (h : b ∈ R.listed self.cls) :
    self.qualifiedCall R.declares b = some (R.callee self b h) :=
  (Option.some_get _).symm

/-- A call stays in the object and runs the function of a class defined earlier. -/
theorem callee_declared_lt (h : b ∈ R.listed self.cls) :
    H.declared (R.callee self b h).cls < H.declared self.cls := by
  obtain ⟨-, -, -, hbase⟩ := ObjectRef.qualifiedCall_spec (qualifiedCall_eq_callee h)
  obtain ⟨hargument, hne⟩ := R.arguments_base self.cls b h
  have hlt := hargument.isBaseOf.declared_lt hne
  have hle := hbase.declared_le
  omega

/-- A callee is a part of the object that calls. -/
theorem callee_contains (h : b ∈ R.listed self.cls) :
    (R.callee self b h).object = self.object ∧
      H.Contains self.subobject (R.callee self b h).subobject := by
  obtain ⟨hobject, hcontains, -⟩ := ObjectRef.qualifiedCall_spec (qualifiedCall_eq_callee h)
  exact ⟨hobject, hcontains⟩

end Callee

mutual

/-- The body of `boost_type_index_find_instance_` in the class of `self`. -/
def boostTypeIndexFindInstance (idx : Index) (self : ObjectRef H) : Option (ObjectRef H) :=
  if R.equal idx (R.typeId self.cls) then some self
  else findInstance idx self (R.listed self.cls) fun _ hb => hb
termination_by (H.declared self.cls, (R.listed self.cls).length + 1)

/-- `find_instance` for a list of bases. -/
def findInstance (idx : Index) (self : ObjectRef H) :
    (bases : List Class) → (∀ b ∈ bases, b ∈ R.listed self.cls) → Option (ObjectRef H)
  | [], _ => none
  | Base :: OtherBases, h =>
    match boostTypeIndexFindInstance idx (R.callee self Base (h Base List.mem_cons_self)) with
    | some ptr => some ptr
    | none => findInstance idx self OtherBases fun b hb => h b (List.mem_cons_of_mem _ hb)
termination_by bases => (H.declared self.cls, bases.length)
decreasing_by
  · exact Prod.Lex.left _ _ (callee_declared_lt _)
  · apply Prod.Lex.right
    exact Nat.lt_succ_self _

end

/-- The virtual call through a pointer. It has no result where it does not compile. -/
def callFindInstance (idx : Index) (u : ObjectRef H) : Option (Option (ObjectRef H)) :=
  (u.virtualCall R.declares).map (R.boostTypeIndexFindInstance idx)

/-- The function of one class asks that of another one. -/
def Asks (c d : Class) : Prop :=
  ∃ b ∈ R.listed c, ∃ t, H.lookup R.declares (.complete b) = some t ∧ t.cls = d

/-- The function of one class asks that of another one, directly or through others. -/
def Reaches (c d : Class) : Prop := Relation.ReflTransGen R.Asks c d

/-- Type indices are equal exactly for classes of one name. -/
def Named {Name : Type*} (name : Class → Name) : Prop :=
  ∀ a b, R.equal (R.typeId a) (R.typeId b) = true ↔ name a = name b

variable {R} {T : Class} {self p u : ObjectRef H}

/-- A function asks that of every callee. -/
theorem asks_callee {b : Class} (h : b ∈ R.listed self.cls) :
    R.Asks self.cls (R.callee self b h).cls := by
  obtain ⟨q, hq, t, ht, hcls⟩ := R.exists_callee self h
  cases hq.symm.trans (qualifiedCall_eq_callee h)
  exact ⟨b, h, t, ht, hcls.symm⟩

/-- What the function of an object asks are the functions of its callees. -/
theorem asks_iff {d : Class} :
    R.Asks self.cls d ↔ ∃ b, ∃ h : b ∈ R.listed self.cls, (R.callee self b h).cls = d := by
  constructor
  · rintro ⟨b, hb, t, ht, rfl⟩
    obtain ⟨q, hq, t', ht', hcls⟩ := R.exists_callee self hb
    cases hq.symm.trans (qualifiedCall_eq_callee hb)
    cases ht.symm.trans ht'
    exact ⟨b, hb, hcls⟩
  · rintro ⟨b, hb, rfl⟩
    exact asks_callee hb

/-! ## What the search returns -/

section Search

variable {idx : Index}

/-- The bases in a list have no result exactly when no callee has one. -/
theorem findInstance_eq_none_iff {bases : List Class}
    (hbases : ∀ b ∈ bases, b ∈ R.listed self.cls) :
    R.findInstance idx self bases hbases = none ↔
      ∀ b (hb : b ∈ bases),
        R.boostTypeIndexFindInstance idx (R.callee self b (hbases b hb)) = none := by
  induction bases with
  | nil => simp [findInstance]
  | cons b bases ih =>
    rw [findInstance]
    cases hb : R.boostTypeIndexFindInstance idx (R.callee self b (hbases b List.mem_cons_self)) with
    | some p =>
      refine iff_of_false (by simp) fun hall => ?_
      rw [hall b List.mem_cons_self] at hb
      cases hb
    | none =>
      simp only
      rw [ih]
      constructor
      · intro hall c hc
        rcases List.mem_cons.mp hc with rfl | hc
        · exact hb
        · exact hall c hc
      · intro hall c hc
        exact hall c (List.mem_cons_of_mem _ hc)

/-- A result for a list of bases is the result of one callee. -/
theorem exists_callee_of_findInstance {bases : List Class}
    (hbases : ∀ b ∈ bases, b ∈ R.listed self.cls)
    (h : R.findInstance idx self bases hbases = some p) :
    ∃ b, ∃ hb : b ∈ R.listed self.cls,
      R.boostTypeIndexFindInstance idx (R.callee self b hb) = some p := by
  induction bases with
  | nil =>
    rw [findInstance] at h
    cases h
  | cons b bases ih =>
    rw [findInstance] at h
    cases hb : R.boostTypeIndexFindInstance idx (R.callee self b (hbases b List.mem_cons_self)) with
    | some q =>
      rw [hb] at h
      cases h
      exact ⟨b, _, hb⟩
    | none =>
      rw [hb] at h
      exact ih _ h

variable {Name : Type*} {name : Class → Name}

/-- A function returns its own object for the name of its class. -/
theorem boostTypeIndexFindInstance_self (hnamed : R.Named name) (h : name self.cls = name T) :
    R.boostTypeIndexFindInstance (R.typeId T) self = some self := by
  rw [boostTypeIndexFindInstance]
  exact if_pos ((hnamed _ _).mpr h.symm)

/-- For other names it asks the classes listed. -/
theorem boostTypeIndexFindInstance_listed (hnamed : R.Named name) (h : name self.cls ≠ name T) :
    R.boostTypeIndexFindInstance (R.typeId T) self =
      R.findInstance (R.typeId T) self (R.listed self.cls) fun _ hb => hb := by
  rw [boostTypeIndexFindInstance]
  exact if_neg fun hequal => h ((hnamed _ _).mp hequal).symm

/-- The search in an object fails exactly for the names that its class does not lead to. -/
theorem boostTypeIndexFindInstance_eq_none_iff (hnamed : R.Named name) :
    R.boostTypeIndexFindInstance (R.typeId T) self = none ↔
      ∀ c, R.Reaches self.cls c → name c ≠ name T := by
  induction hdepth : H.declared self.cls using Nat.strongRecOn generalizing self with
  | ind depth ih =>
    by_cases hcls : name self.cls = name T
    · rw [boostTypeIndexFindInstance_self hnamed hcls]
      exact iff_of_false (by simp) fun hall => hall _ Relation.ReflTransGen.refl hcls
    · rw [boostTypeIndexFindInstance_listed hnamed hcls, findInstance_eq_none_iff]
      have hstep : ∀ b (hb : b ∈ R.listed self.cls),
          R.boostTypeIndexFindInstance (R.typeId T) (R.callee self b hb) = none ↔
            ∀ c, R.Reaches (R.callee self b hb).cls c → name c ≠ name T := fun b hb =>
        ih _ (hdepth ▸ callee_declared_lt hb) rfl
      constructor
      · intro hall c hreaches
        rcases hreaches.cases_head with rfl | ⟨d, hasks, hrest⟩
        · exact hcls
        · obtain ⟨b, hb, rfl⟩ := asks_iff.mp hasks
          exact (hstep b hb).mp (hall b hb) c hrest
      · intro hall b hb
        exact (hstep b hb).mpr fun c hrest => hall c (.head (asks_callee hb) hrest)

/-- A result lies in the object, and has the name looked for and a class that the
registrations lead to. -/
theorem boostTypeIndexFindInstance_eq_some (hnamed : R.Named name)
    (h : R.boostTypeIndexFindInstance (R.typeId T) self = some p) :
    p.object = self.object ∧ H.Contains self.subobject p.subobject ∧ name p.cls = name T ∧
      R.Reaches self.cls p.cls := by
  induction hdepth : H.declared self.cls using Nat.strongRecOn generalizing self with
  | ind depth ih =>
    by_cases hcls : name self.cls = name T
    · rw [boostTypeIndexFindInstance_self hnamed hcls] at h
      cases h
      exact ⟨rfl, Hierarchy.Contains.refl _, hcls, .refl⟩
    · rw [boostTypeIndexFindInstance_listed hnamed hcls] at h
      obtain ⟨b, hb, hp⟩ := exists_callee_of_findInstance _ h
      obtain ⟨hobject, hcontains, hname, hreaches⟩ := ih _ (hdepth ▸ callee_declared_lt hb) hp rfl
      obtain ⟨hobject', hcontains'⟩ := callee_contains hb
      exact ⟨hobject.trans hobject', hcontains'.trans hcontains, hname,
        .head (asks_callee hb) hreaches⟩

end Search

/-! ## Casts -/

variable (R) (T) {U : Class}

/-- The overloads of `runtime_cast_impl`, told apart by an integral constant. -/
def runtimeCastImpl (u : ClassPtr H U) : Bool → Except CastError (ClassPtr H T)
  | true => if H.isUnambiguousBase T U then .ok (u.upcast T) else .error .illFormed
  | false =>
    match u.target with
    | none => .error .nullCall
    | some p =>
      match R.callFindInstance (R.typeId T) p with
      | none => .error .illFormed
      | some found => staticCast T found

variable {R} {T}

/-- A search that compiles runs in the overrider's object. -/
theorem callFindInstance_eq {idx : Index} {r : ObjectRef H}
    (hcall : u.virtualCall R.declares = some r) :
    R.callFindInstance idx u = some (R.boostTypeIndexFindInstance idx r) := by
  rw [callFindInstance, hcall, Option.map_some]

/-- Where classes are told apart, a search that compiles fails exactly for the classes
that the overrider's class does not lead to, and returns subobjects of the class looked
for in the overrider's object. -/
theorem callFindInstance_eq_some {r : ObjectRef H} (hnamed : R.Named id)
    (hcall : u.virtualCall R.declares = some r) :
    ∃ found, R.callFindInstance (R.typeId T) u = some found ∧
      (found = none ↔ ¬ R.Reaches r.cls T) ∧
      ∀ q, found = some q → ObjectRef.Target T u q ∧ H.Contains r.subobject q.subobject := by
  refine ⟨_, callFindInstance_eq hcall, ?_, fun q hq => ?_⟩
  · rw [boostTypeIndexFindInstance_eq_none_iff hnamed]
    constructor
    · intro hall hreaches
      exact hall T hreaches rfl
    · rintro hnot c hreaches (rfl : c = T)
      exact hnot hreaches
  · obtain ⟨hobject, hcontains, hname, -⟩ := boostTypeIndexFindInstance_eq_some hnamed hq
    exact ⟨⟨hobject.trans (ObjectRef.virtualCall_spec hcall).1, hname⟩, hcontains⟩

/-- A search through a pointer to an object does not compile, or ends in a valid
`static_cast` of what it returns. -/
theorem runtimeCastImpl_search {u : ClassPtr H U} {p : ObjectRef H} (hnamed : R.Named id)
    (hp : u.target = some p) :
    R.callFindInstance (R.typeId T) p = none ∧
        R.runtimeCastImpl T u false = .error .illFormed ∨
      ∃ found v, R.callFindInstance (R.typeId T) p = some found ∧
        R.runtimeCastImpl T u false = .ok v ∧ v.target = found ∧
        ∀ q, found = some q → ObjectRef.Target T p q := by
  unfold runtimeCastImpl
  cases hcall : p.virtualCall R.declares with
  | none =>
    have hnone : R.callFindInstance (R.typeId T) p = none := by
      rw [callFindInstance, hcall]
      rfl
    exact Or.inl ⟨hnone, by simp only [hp, hnone]⟩
  | some r =>
    obtain ⟨found, hfound, -, htarget⟩ := callFindInstance_eq_some (T := T) hnamed hcall
    obtain ⟨v, hv, hvtarget⟩ := RuntimeClasses.staticCast_target fun q hq => (htarget q hq).1.2
    exact Or.inr ⟨found, v, hfound, by simp only [hp, hfound, hv], hvtarget,
      fun q hq => (htarget q hq).1⟩

/-- The classes that registrations lead to are bases. -/
theorem Reaches.isBaseOf {c d : Class} (h : R.Reaches c d) : H.IsBaseOf d c := by
  induction h with
  | refl => exact Hierarchy.IsBaseOf.refl c
  | tail _ hasks ih =>
    obtain ⟨b, hb, t, ht, rfl⟩ := hasks
    have hargument := (R.arguments_base _ b hb).1.isBaseOf
    exact ih.trans (hargument.trans (Hierarchy.lookup_eq_some ht).1.isBaseOf)

/-- A class with all its bases registered, each with at least its direct bases, leads to
all of them. -/
theorem reaches_iff_isBaseOf {c d : Class}
    (hall : ∀ b, H.IsBaseOf b c → R.declares b = true ∧ ∀ a ∈ H.bases b, a ∈ R.listed b) :
    R.Reaches c d ↔ H.IsBaseOf d c := by
  refine ⟨Reaches.isBaseOf, fun h => ?_⟩
  induction h with
  | refl => exact .refl
  | @tail b d hb hd ih =>
    have hbase : H.IsBaseOf d c := hb.tail hd
    refine ih.tail ⟨d, (hall b hb).2 d hd, .complete d, ?_, rfl⟩
    exact Hierarchy.lookup_self (hall d hbase).1

/-- Where indices tell classes apart, registrations that list at least the direct bases, in
any order and with repetitions, find every class that there is. The search compiles through
every pointer and does not depend on it, and returns the only subobject of its class where
there is only one. -/
theorem callFindInstance_complete (R : Registrations H Index) (hnamed : R.Named id)
    (u : ObjectRef H) (T : Class)
    (hall : ∀ c, H.IsBaseOf c u.object.cls →
      R.declares c = true ∧ ∀ b ∈ H.bases c, b ∈ R.listed c) :
    ∃ found, (∀ u' : ObjectRef H, u'.object = u.object →
        R.callFindInstance (R.typeId T) u' = some found) ∧
      (found = none ↔ ¬ H.IsBaseOf T u.object.cls) ∧
      (∀ p, found = some p → ObjectRef.Target T u p) ∧
      ∀ t, ObjectRef.Target T u t → (∀ t', ObjectRef.Target T u t' → t' = t) →
        found = some t := by
  have hcall : ∀ u' : ObjectRef H, u'.object = u.object →
      u'.virtualCall R.declares = some u.mostDerived := by
    intro u' hobject
    rw [← ObjectRef.mostDerived_congr hobject]
    refine ObjectRef.virtualCall_mostDerived ?_ (ObjectRef.lookup_self (p := u') ?_)
    · rw [hobject]
      exact (hall _ (Hierarchy.IsBaseOf.refl _)).1
    · refine (hall _ ?_).1
      rw [← hobject]
      exact u'.inside.isBaseOf
  obtain ⟨found, hfound, hnone, htarget⟩ := callFindInstance_eq_some (T := T) hnamed (hcall u rfl)
  have hreaches : R.Reaches u.mostDerived.cls T ↔ H.IsBaseOf T u.object.cls :=
    reaches_iff_isBaseOf hall
  refine ⟨found, fun u' hobject => ?_, ?_, fun p hp => (htarget p hp).1, fun t ht hunique => ?_⟩
  · rw [← hfound, callFindInstance, callFindInstance, hcall u' hobject, hcall u rfl]
  · rw [hnone, hreaches]
  · cases hp : found with
    | none =>
      refine absurd ?_ (hnone.mp hp)
      rw [hreaches, ← ht.1, ← ht.2]
      exact t.inside.isBaseOf
    | some p => rw [hunique p (htarget p hp).1]

end Registrations

/-! ## Registrations of the direct bases -/

namespace RuntimeClasses

variable {Class Index : Type*} [DecidableEq Class] {H : Hierarchy Class}

/-- Registrations of exactly the direct bases, where no direct base is ambiguous. -/
def toRegistrations (R : RuntimeClasses H Index)
    (h : ∀ c, ∀ b ∈ H.bases c, H.UnambiguousBase b c) : Registrations H Index where
  arguments c := some (R.registered c)
  arguments_base c b hb := by
    have hmem := R.mem_registered.mp hb
    refine ⟨h c b hmem, ?_⟩
    rintro rfl
    exact Hierarchy.not_isBaseOf_of_mem hmem (Hierarchy.IsBaseOf.refl b)
  arguments_lookup _ b _ := ⟨.complete b, Hierarchy.lookup_self rfl⟩
  typeId := R.typeId
  equal := R.equal

variable {R : RuntimeClasses H Index} {h : ∀ c, ∀ b ∈ H.bases c, H.UnambiguousBase b c}
  {self : ObjectRef H} {idx : Index}

/-- A qualified call of a registered direct base runs on its base subobject. -/
theorem callee_toRegistrations {b : Class} (hb : b ∈ (R.toRegistrations h).listed self.cls) :
    (R.toRegistrations h).callee self b hb = self.base b (R.mem_registered.mp hb) := by
  have hmem := R.mem_registered.mp hb
  have hupcast : self.upcast b = some (self.base b hmem) := by
    refine ObjectRef.upcast_eq_some_iff.mpr ⟨rfl, ?_⟩
    exact (Hierarchy.upcast_eq_some (h _ b hmem)).mpr
      ⟨Hierarchy.contains_base hmem, Hierarchy.base_cls H _ b⟩
  have hcall : self.qualifiedCall (R.toRegistrations h).declares b = some (self.base b hmem) :=
    Option.bind_eq_some_iff.mpr ⟨_, hupcast, ObjectRef.lookup_self rfl⟩
  exact Option.some.inj ((Registrations.qualifiedCall_eq_callee hb).symm.trans hcall)

/-- Searches of the same bases are equal when those of the callees are. -/
theorem findInstance_toRegistrations {bases : List Class}
    (hlisted : ∀ b ∈ bases, b ∈ (R.toRegistrations h).listed self.cls)
    (hbases : ∀ b ∈ bases, b ∈ H.bases self.cls)
    (hstep : ∀ b (hb : b ∈ H.bases self.cls),
      (R.toRegistrations h).boostTypeIndexFindInstance idx (self.base b hb) =
        R.boostTypeIndexFindInstance idx (self.base b hb)) :
    (R.toRegistrations h).findInstance idx self bases hlisted =
      R.findInstance idx self bases hbases := by
  induction bases with
  | nil => rw [Registrations.findInstance, findInstance]
  | cons b bases ih =>
    rw [Registrations.findInstance, findInstance, callee_toRegistrations, hstep]
    cases R.boostTypeIndexFindInstance idx (self.base b (hbases b List.mem_cons_self)) with
    | some p => rfl
    | none => exact ih _ _

/-- The functions of a class do the same under both registrations. -/
theorem boostTypeIndexFindInstance_toRegistrations :
    (R.toRegistrations h).boostTypeIndexFindInstance idx self =
      R.boostTypeIndexFindInstance idx self := by
  induction hdepth : H.declared self.cls using Nat.strongRecOn generalizing self with
  | ind depth ih =>
    rw [Registrations.boostTypeIndexFindInstance, boostTypeIndexFindInstance]
    by_cases hequal : R.equal idx (R.typeId self.cls) = true
    · exact (if_pos hequal).trans (if_pos hequal).symm
    · refine (if_neg hequal).trans (Eq.trans ?_ (if_neg hequal).symm)
      refine findInstance_toRegistrations _ _ fun b hb => ?_
      have hlt := H.declared_lt hb
      refine ih (H.declared b) (by omega) ?_
      rw [ObjectRef.base_cls]

/-- The search for registrations of exactly the direct bases, in which the name of every
function designates the function of its class and every virtual call starts at the
complete object, is the search under arbitrary registrations. -/
theorem callFindInstance_toRegistrations (R : RuntimeClasses H Index)
    (h : ∀ c, ∀ b ∈ H.bases c, H.UnambiguousBase b c) (idx : Index) (u : ObjectRef H) :
    (R.toRegistrations h).callFindInstance idx u = some (R.callFindInstance idx u) := by
  have hcall : u.virtualCall (R.toRegistrations h).declares = some u.mostDerived :=
    ObjectRef.virtualCall_mostDerived rfl (ObjectRef.lookup_self rfl)
  rw [Registrations.callFindInstance, hcall, Option.map_some,
    boostTypeIndexFindInstance_toRegistrations, callFindInstance]

end RuntimeClasses

/-! ### A class between two registered ones -/

/-- Classes that inherit one from the other. -/
inductive LinearClass
  | base
  | derived
  | leaf
  deriving DecidableEq, Repr

/-- `struct derived : base` and `struct leaf : derived`. -/
def linearHierarchy : Hierarchy LinearClass where
  bases
    | .base => []
    | .derived => [.base]
    | .leaf => [.derived]
  isVirtual _ _ := false
  nodup c := by cases c <;> decide
  declared
    | .base => 0
    | .derived => 1
    | .leaf => 2
  declared_lt {b c} h := by
    revert h
    cases b <;> cases c <;> decide

/-- All bases of these classes are unambiguous. -/
theorem linear_unambiguous (c : LinearClass) : ∀ b ∈ linearHierarchy.bases c,
    linearHierarchy.UnambiguousBase b c := by
  intro b hb
  cases c with
  | base => cases hb
  | derived =>
    obtain rfl := List.mem_singleton.mp hb
    exact Hierarchy.unambiguousBase_of_bases rfl (Hierarchy.unambiguousBase_self _)
  | leaf =>
    obtain rfl := List.mem_singleton.mp hb
    exact Hierarchy.unambiguousBase_of_bases rfl (Hierarchy.unambiguousBase_self _)

/-- So is the indirect base of `leaf`. -/
theorem linear_unambiguous_leaf : linearHierarchy.UnambiguousBase .base .leaf :=
  Hierarchy.unambiguousBase_of_bases rfl (linear_unambiguous .derived .base (by decide))

/-- Registrations in which `leaf` names an indirect base first and twice. -/
def generousRegistrations : Registrations linearHierarchy LinearClass where
  arguments
    | .base => some []
    | .derived => some [.base]
    | .leaf => some [.base, .derived, .base]
  arguments_base c b hb := by
    cases c with
    | base => cases hb
    | derived =>
      obtain rfl := List.mem_singleton.mp hb
      exact ⟨linear_unambiguous .derived .base (by decide), by decide⟩
    | leaf =>
      have hcases : b = .base ∨ b = .derived := by
        revert hb
        cases b <;> decide
      rcases hcases with rfl | rfl
      · exact ⟨linear_unambiguous_leaf, by decide⟩
      · exact ⟨linear_unambiguous .leaf .derived (by decide), by decide⟩
  arguments_lookup _ b _ := ⟨.complete b, Hierarchy.lookup_self (by cases b <;> rfl)⟩
  typeId := id
  equal a b := decide (a = b)

/-- Its indices tell classes apart. -/
theorem generousRegistrations_named : generousRegistrations.Named id :=
  fun _ _ => decide_eq_true_iff

/-- An object of class `leaf`. -/
def leafObject : ObjectRef linearHierarchy := ⟨⟨0, .leaf⟩, .complete .leaf, .refl _⟩

/-- Registrations of the direct bases of these classes. -/
def linearClasses : RuntimeClasses linearHierarchy LinearClass where
  registered := linearHierarchy.bases
  registered_perm _ := List.Perm.refl _
  typeId := id
  equal a b := decide (a = b)
  equal_typeId := decide_eq_true_iff

/-- The generous registrations find the object of class `base`. -/
theorem callFindInstance_complete_generous :
    ∃ found, (∀ u' : ObjectRef linearHierarchy, u'.object = leafObject.object →
        generousRegistrations.callFindInstance (generousRegistrations.typeId .base) u' =
          some found) ∧
      (found = none ↔ ¬ linearHierarchy.IsBaseOf .base leafObject.object.cls) ∧
      (∀ p, found = some p → ObjectRef.Target .base leafObject p) ∧
      ∀ t, ObjectRef.Target .base leafObject t →
        (∀ t', ObjectRef.Target .base leafObject t' → t' = t) → found = some t :=
  generousRegistrations.callFindInstance_complete generousRegistrations_named leafObject .base
    fun c _ => by cases c <;> decide

/-- The search of the direct bases of a `leaf` is the search under its registrations. -/
theorem callFindInstance_toRegistrations_leaf :
    (linearClasses.toRegistrations linear_unambiguous).callFindInstance .base leafObject =
      some (linearClasses.callFindInstance .base leafObject) :=
  linearClasses.callFindInstance_toRegistrations linear_unambiguous .base leafObject

end TypeIndex
