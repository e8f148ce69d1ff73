import TypeIndex.CxxObject.Cast

/-!
# The search for a subobject by its type

Every registered class overrides a virtual function that compares a type index with
its own and otherwise asks the base subobjects named in the registration, each by a
call that is not virtual. The call through a pointer is virtual and starts at the
most derived object. The search returns the subobject that is listed first. Where a
direct base is ambiguous a registration does not compile; the results cover these
hierarchies as well.
-/

namespace TypeIndex

open CxxObject

/-- The registrations of the classes of a program. -/
structure RuntimeClasses {Class : Type*} (H : Hierarchy Class) (Index : Type*) where
  /-- The arguments of `BOOST_TYPE_INDEX_IMPLEMENT_RUNTIME_CAST` in a class. -/
  registered : Class → List Class
  /-- They are exactly the direct bases, in any order. -/
  registered_perm : ∀ c, (registered c).Perm (H.bases c)
  /-- `boost::typeindex::type_id`. -/
  typeId : Class → Index
  /-- The operator `==` on type indices. -/
  equal : Index → Index → Bool
  /-- Type indices are equal exactly for equal classes. -/
  equal_typeId : ∀ {a b}, equal (typeId a) (typeId b) = true ↔ a = b

namespace RuntimeClasses

variable {Class Index : Type*} {H : Hierarchy Class} (R : RuntimeClasses H Index)

/-- The classes registered are the direct bases. -/
theorem mem_registered {b c : Class} : b ∈ R.registered c ↔ b ∈ H.bases c :=
  (R.registered_perm c).mem_iff

/-- `runtime_class_construct_type_id`, which takes the class from the static type of
the pointer. -/
def runtimeClassConstructTypeId (self : ObjectRef H) : Index := R.typeId self.cls

mutual

/-- The body of `boost_type_index_find_instance_` in the class of `self`. -/
def boostTypeIndexFindInstance (idx : Index) (self : ObjectRef H) : Option (ObjectRef H) :=
  if R.equal idx (R.runtimeClassConstructTypeId self) then some self
  else findInstance idx self (R.registered self.cls) fun _ hb => R.mem_registered.mp hb
termination_by (H.declared self.cls, (R.registered self.cls).length + 1)

/-- `find_instance` for a list of registered bases. -/
def findInstance (idx : Index) (self : ObjectRef H) :
    (bases : List Class) → (∀ b ∈ bases, b ∈ H.bases self.cls) → Option (ObjectRef H)
  | [], _ => none
  | Base :: OtherBases, h =>
    match boostTypeIndexFindInstance idx (self.base Base (h Base List.mem_cons_self)) with
    | some ptr => some ptr
    | none => findInstance idx self OtherBases fun b hb => h b (List.mem_cons_of_mem _ hb)
termination_by bases => (H.declared self.cls, bases.length)
decreasing_by
  · apply Prod.Lex.left
    rw [ObjectRef.base_cls]
    exact H.declared_lt (h Base List.mem_cons_self)
  · apply Prod.Lex.right
    exact Nat.lt_succ_self _

end

/-- The virtual call of `boost_type_index_find_instance_`: the final overrider is that
of the class of the complete object, and runs on the complete object. -/
def callFindInstance (idx : Index) (u : ObjectRef H) : Option (ObjectRef H) :=
  R.boostTypeIndexFindInstance idx u.mostDerived

/-- The subobject of class `T` that is listed first below another one: the search goes
into the first registered base that is `T` or has `T` as a base. -/
inductive FirstListed (T : Class) : Subobject Class → Subobject Class → Prop
  | here {s : Subobject Class} : s.cls = T → FirstListed T s s
  | base {s t : Subobject Class} {b : Class} {before after : List Class} :
    s.cls ≠ T → R.registered s.cls = before ++ b :: after →
    (∀ b' ∈ before, ¬ H.IsBaseOf T b') → FirstListed T (H.base s b) t → FirstListed T s t

variable {R} {T : Class} {s t : Subobject Class}

/-- The first listed subobject has class `T` and is contained. -/
theorem FirstListed.contains (h : R.FirstListed T s t) : H.Contains s t ∧ t.cls = T := by
  induction h with
  | here hcls => exact ⟨Hierarchy.Contains.refl _, hcls⟩
  | @base s t b before after _ hlist _ _ ih =>
    have hmem : b ∈ R.registered s.cls := by
      rw [hlist]
      simp
    exact ⟨(Hierarchy.contains_base (R.mem_registered.mp hmem)).trans ih.1, ih.2⟩

/-- A subobject that the search lists is that of a base. -/
theorem FirstListed.isBaseOf (h : R.FirstListed T s t) : H.IsBaseOf T s.cls := by
  obtain ⟨hcontains, rfl⟩ := h.contains
  exact hcontains.isBaseOf

/-- A list with an element of some kind has a first one. -/
theorem exists_first_split {α : Type*} {P : α → Prop} {l : List α} (h : ∃ a ∈ l, P a) :
    ∃ before a after, l = before ++ a :: after ∧ P a ∧ ∀ b ∈ before, ¬ P b := by
  classical
  obtain ⟨a, ha, hP⟩ := h
  cases hfind : l.find? (fun a => decide (P a)) with
  | none => exact absurd (decide_eq_true hP) (List.find?_eq_none.mp hfind a ha)
  | some b =>
    obtain ⟨hb, before, after, hl, hbefore⟩ := List.find?_eq_some_iff_append.mp hfind
    refine ⟨before, b, after, hl, of_decide_eq_true hb, fun c hc => ?_⟩
    simpa using hbefore c hc

/-- There is a first listed subobject for every base. -/
theorem exists_firstListed (R : RuntimeClasses H Index) (h : H.IsBaseOf T s.cls) :
    ∃ t, R.FirstListed T s t := by
  induction hdepth : H.declared s.cls using Nat.strongRecOn generalizing s with
  | ind depth ih =>
    by_cases hcls : s.cls = T
    · exact ⟨s, .here hcls⟩
    · obtain ⟨d, hd, hbase⟩ := (Hierarchy.isBaseOf_iff.mp h).resolve_left hcls
      obtain ⟨before, b, after, hlist, hb, hbefore⟩ :=
        exists_first_split ⟨d, R.mem_registered.mpr hd, hbase⟩
      have hmem : b ∈ H.bases s.cls := by
        rw [← R.mem_registered, hlist]
        simp
      have hlt := H.declared_lt hmem
      obtain ⟨t, ht⟩ := ih (H.declared (H.base s b).cls) (by rw [Hierarchy.base_cls]; omega)
        (by rwa [Hierarchy.base_cls]) rfl
      exact ⟨t, .base hcls hlist hbefore ht⟩

/-! ## What the search returns -/

section Search

variable {idx : Index} {self p : ObjectRef H}

/-- The function returns the object itself when the type indices are equal. -/
theorem boostTypeIndexFindInstance_self (h : self.cls = T) :
    R.boostTypeIndexFindInstance (R.typeId T) self = some self := by
  rw [boostTypeIndexFindInstance]
  exact if_pos (R.equal_typeId.mpr h.symm)

/-- Otherwise it asks the registered bases. -/
theorem boostTypeIndexFindInstance_bases (h : self.cls ≠ T) :
    R.boostTypeIndexFindInstance (R.typeId T) self =
      R.findInstance (R.typeId T) self (R.registered self.cls)
        fun _ hb => R.mem_registered.mp hb := by
  rw [boostTypeIndexFindInstance]
  exact if_neg fun hequal => h (R.equal_typeId.mp hequal).symm

/-- Bases without a result contribute nothing. -/
theorem findInstance_eq_none {bases : List Class} (hbases : ∀ b ∈ bases, b ∈ H.bases self.cls)
    (h : ∀ b (hb : b ∈ bases),
      R.boostTypeIndexFindInstance idx (self.base b (hbases b hb)) = none) :
    R.findInstance idx self bases hbases = none := by
  induction bases with
  | nil => rw [findInstance]
  | cons b bases ih =>
    rw [findInstance, h b List.mem_cons_self]
    exact ih _ fun c hc => h c (List.mem_cons_of_mem _ hc)

/-- The first base with a result decides. -/
theorem findInstance_eq_some {bases before after : List Class} {b : Class}
    (hbases : ∀ c ∈ bases, c ∈ H.bases self.cls) (hlist : bases = before ++ b :: after)
    (hmem : b ∈ H.bases self.cls)
    (hbefore : ∀ c (hc : c ∈ H.bases self.cls), c ∈ before →
      R.boostTypeIndexFindInstance idx (self.base c hc) = none)
    (hb : R.boostTypeIndexFindInstance idx (self.base b hmem) = some p) :
    R.findInstance idx self bases hbases = some p := by
  subst hlist
  induction before with
  | nil =>
    simp only [List.nil_append]
    rw [findInstance, hb]
  | cons c before ih =>
    have hc : c ∈ H.bases self.cls := hbases c List.mem_cons_self
    simp only [List.cons_append]
    rw [findInstance, hbefore c hc List.mem_cons_self]
    exact ih (fun d hd hmem => hbefore d hd (List.mem_cons_of_mem _ hmem)) _

/-- The search in an object fails when the class looked for is no base of its class. -/
theorem boostTypeIndexFindInstance_eq_none (h : ¬ H.IsBaseOf T self.cls) :
    R.boostTypeIndexFindInstance (R.typeId T) self = none := by
  induction hdepth : H.declared self.cls using Nat.strongRecOn generalizing self with
  | ind depth ih =>
    have hcls : self.cls ≠ T := fun hcls => h (hcls ▸ Hierarchy.IsBaseOf.refl _)
    rw [boostTypeIndexFindInstance_bases hcls]
    refine findInstance_eq_none _ fun b hb => ?_
    have hmem := R.mem_registered.mp hb
    have hlt := H.declared_lt hmem
    refine ih (H.declared b) (by omega) (fun hbase => h ?_) (by rw [ObjectRef.base_cls])
    rw [ObjectRef.base_cls] at hbase
    exact Hierarchy.isBaseOf_iff.mpr (Or.inr ⟨b, hmem, hbase⟩)

/-- The search in an object finds the subobject that is listed first. -/
theorem boostTypeIndexFindInstance_eq_some (h : R.FirstListed T s t) (hs : self.subobject = s) :
    ∃ p, R.boostTypeIndexFindInstance (R.typeId T) self = some p ∧ p.object = self.object ∧
      p.subobject = t := by
  induction h generalizing self with
  | here hcls =>
    subst hs
    exact ⟨self, boostTypeIndexFindInstance_self hcls, rfl, rfl⟩
  | @base s t b before after hcls hlist hbefore _ ih =>
    subst hs
    have hmem : b ∈ H.bases self.cls := by
      rw [← R.mem_registered, ObjectRef.cls, hlist]
      simp
    obtain ⟨p, hp, hobject, ht⟩ := ih (self.base_subobject b hmem)
    refine ⟨p, ?_, hobject, ht⟩
    rw [boostTypeIndexFindInstance_bases hcls]
    refine findInstance_eq_some _ hlist hmem (fun c hc hfirst => ?_) hp
    apply boostTypeIndexFindInstance_eq_none
    rw [ObjectRef.base_cls]
    exact hbefore c hfirst

/-- The virtual call fails exactly when the class looked for is no base of the class
of the complete object. -/
theorem callFindInstance_eq_none_iff (R : RuntimeClasses H Index) {u : ObjectRef H} :
    R.callFindInstance (R.typeId T) u = none ↔ ¬ H.IsBaseOf T u.object.cls := by
  constructor
  · intro h hbase
    obtain ⟨t, ht⟩ := R.exists_firstListed (s := .complete u.object.cls) hbase
    obtain ⟨p, hp, -⟩ := boostTypeIndexFindInstance_eq_some ht u.mostDerived_subobject
    rw [callFindInstance, hp] at h
    cases h
  · intro h
    exact boostTypeIndexFindInstance_eq_none h

/-- The virtual call finds the first listed subobject of the complete object. -/
theorem callFindInstance_eq_some_iff (R : RuntimeClasses H Index) {u : ObjectRef H} :
    R.callFindInstance (R.typeId T) u = some p ↔
      p.object = u.object ∧ R.FirstListed T (.complete u.object.cls) p.subobject := by
  have hfound : ∀ t, R.FirstListed T (.complete u.object.cls) t →
      ∃ q, R.callFindInstance (R.typeId T) u = some q ∧ q.object = u.object ∧
        q.subobject = t := fun t ht =>
    boostTypeIndexFindInstance_eq_some ht u.mostDerived_subobject
  constructor
  · intro h
    have hbase : H.IsBaseOf T u.object.cls := by
      by_contra hnot
      rw [R.callFindInstance_eq_none_iff.mpr hnot] at h
      cases h
    obtain ⟨t, ht⟩ := R.exists_firstListed (s := .complete u.object.cls) hbase
    obtain ⟨q, hq, hobject, rfl⟩ := hfound t ht
    cases h.symm.trans hq
    exact ⟨hobject, ht⟩
  · rintro ⟨hobject, hlisted⟩
    obtain ⟨q, hq, hobject', hsubobject⟩ := hfound _ hlisted
    rw [hq, ObjectRef.ext (hobject'.trans hobject.symm) hsubobject]

/-- A result has the class looked for and lies in the complete object. -/
theorem target_of_callFindInstance {u : ObjectRef H}
    (h : R.callFindInstance (R.typeId T) u = some p) : ObjectRef.Target T u p := by
  obtain ⟨hobject, hlisted⟩ := R.callFindInstance_eq_some_iff.mp h
  exact ⟨hobject, hlisted.contains.2⟩

/-- When the search fails, the complete object has no subobject of the class. -/
theorem not_target_of_callFindInstance (R : RuntimeClasses H Index) {u : ObjectRef H}
    (h : R.callFindInstance (R.typeId T) u = none) (t : ObjectRef H) :
    ¬ ObjectRef.Target T u t := by
  rintro ⟨hobject, hcls⟩
  apply R.callFindInstance_eq_none_iff.mp h
  rw [← hobject, ← hcls]
  exact t.inside.isBaseOf

end Search

/-- The search is sound and complete. It fails exactly for classes that are neither the
class of the complete object nor a base of it, and otherwise returns a subobject of the
class looked for in the same complete object. It does not depend on the subobject it is
called through, and returns the only subobject of its class when there is only one. -/
theorem callFindInstance_sound_complete (R : RuntimeClasses H Index) (u : ObjectRef H)
    (T : Class) :
    (R.callFindInstance (R.typeId T) u = none ↔ ¬ H.IsBaseOf T u.object.cls) ∧
    (∀ p, R.callFindInstance (R.typeId T) u = some p → ObjectRef.Target T u p) ∧
    (∀ u' : ObjectRef H, u'.object = u.object →
      R.callFindInstance (R.typeId T) u' = R.callFindInstance (R.typeId T) u) ∧
    (∀ t, ObjectRef.Target T u t → (∀ t', ObjectRef.Target T u t' → t' = t) →
      R.callFindInstance (R.typeId T) u = some t) := by
  refine ⟨R.callFindInstance_eq_none_iff, fun p => target_of_callFindInstance, ?_, ?_⟩
  · intro u' hobject
    rw [callFindInstance, callFindInstance, ObjectRef.mostDerived_congr hobject]
  · intro t ht hunique
    cases hfound : R.callFindInstance (R.typeId T) u with
    | none => exact absurd ht (R.not_target_of_callFindInstance hfound t)
    | some p => rw [hunique p (target_of_callFindInstance hfound)]

end RuntimeClasses

end TypeIndex
