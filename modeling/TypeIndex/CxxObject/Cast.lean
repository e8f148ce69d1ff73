import TypeIndex.CxxObject.Hierarchy

/-!
# Pointers to class objects and casts between them

A pointer designates a subobject of a complete object and has a static class. The
implicit conversion to an unambiguous base stays inside the designated subobject. The
run-time check of `dynamic_cast` looks for the only target subobject around the
designated one, and then for the only one in the complete object.
-/

namespace CxxObject

/-- A most derived object in the program's memory. -/
structure CompleteObject (Class : Type*) where
  /-- The address of the object. -/
  address : ℕ
  /-- The class the object was created with. -/
  cls : Class
  deriving DecidableEq, Repr

/-- A subobject of a complete object, with the fact that the object contains it. -/
structure ObjectRef {Class : Type*} (H : Hierarchy Class) where
  /-- The complete object. -/
  object : CompleteObject Class
  /-- The subobject designated in it. -/
  subobject : Subobject Class
  /-- The subobject is one of the complete object. -/
  inside : H.Contains (.complete object.cls) subobject

/-- A pointer `c*`: null, or the address of an object of class `c`. -/
structure ClassPtr {Class : Type*} (H : Hierarchy Class) (c : Class) where
  /-- The object pointed to, if there is one. -/
  target : Option (ObjectRef H)
  /-- The object pointed to has the static class of the pointer. -/
  cls_eq : ∀ p, target = some p → p.subobject.cls = c

variable {Class : Type*} {H : Hierarchy Class} {b c D T : Class} {s t u : Subobject Class}

/-- An object is given by its complete object and its place there. -/
@[ext]
theorem ObjectRef.ext {p q : ObjectRef H} (hobject : p.object = q.object)
    (hsubobject : p.subobject = q.subobject) : p = q := by
  obtain ⟨object, subobject, inside⟩ := p
  cases hobject
  cases hsubobject
  rfl

/-- A pointer is given by the object it points to. -/
@[ext]
theorem ClassPtr.ext {p q : ClassPtr H c} (h : p.target = q.target) : p = q := by
  obtain ⟨target, cls_eq⟩ := p
  cases h
  rfl

namespace ObjectRef

/-- The class of the designated subobject. -/
def cls (p : ObjectRef H) : Class := p.subobject.cls

/-- The complete object as a subobject of itself. -/
def mostDerived (p : ObjectRef H) : ObjectRef H where
  object := p.object
  subobject := .complete p.object.cls
  inside := Hierarchy.Contains.refl _

/-- The complete object is no part of another one. -/
@[simp] theorem mostDerived_subobject (p : ObjectRef H) :
    p.mostDerived.subobject = .complete p.object.cls := rfl

/-- Subobjects of one object have one most derived object. -/
theorem mostDerived_congr {p q : ObjectRef H} (h : p.object = q.object) :
    p.mostDerived = q.mostDerived := by
  refine ObjectRef.ext h ?_
  rw [mostDerived_subobject, mostDerived_subobject, h]

/-- A subobject contained in the designated one. -/
def inner (p : ObjectRef H) (t : Subobject Class) (h : H.Contains p.subobject t) : ObjectRef H where
  object := p.object
  subobject := t
  inside := p.inside.trans h

/-- The subobject for a direct base. -/
def base (p : ObjectRef H) (b : Class) (h : b ∈ H.bases p.cls) : ObjectRef H :=
  p.inner (H.base p.subobject b) (Hierarchy.contains_base h)

/-- A base subobject has the class of the base. -/
@[simp] theorem base_cls (p : ObjectRef H) (b : Class) (h : b ∈ H.bases p.cls) :
    (p.base b h).cls = b := Hierarchy.base_cls H p.subobject b

/-- A base subobject is the one of the hierarchy. -/
@[simp] theorem base_subobject (p : ObjectRef H) (b : Class) (h : b ∈ H.bases p.cls) :
    (p.base b h).subobject = H.base p.subobject b := rfl

/-- The address of the object, as a pointer of its class. -/
def toPtr (p : ObjectRef H) (h : p.cls = c) : ClassPtr H c where
  target := some p
  cls_eq q hq := by
    cases hq
    exact h

/-- The object that the implicit conversion to a base designates. -/
def upcast [DecidableEq Class] (T : Class) (p : ObjectRef H) : Option (ObjectRef H) :=
  match h : H.upcast T p.subobject with
  | none => none
  | some t => some (p.inner t (Hierarchy.contains_of_upcast h).1)

/-- The conversion stays in the complete object. -/
theorem upcast_eq_some_iff [DecidableEq Class] {p q : ObjectRef H} :
    p.upcast T = some q ↔ q.object = p.object ∧ H.upcast T p.subobject = some q.subobject := by
  unfold upcast
  split
  next hnone => simp [hnone]
  next t hsome =>
    constructor
    · intro h
      cases h
      exact ⟨rfl, hsome⟩
    · rintro ⟨hobject, hupcast⟩
      have ht : t = q.subobject := Option.some.inj (hsome.symm.trans hupcast)
      exact congrArg some (ObjectRef.ext hobject.symm ht)

end ObjectRef

namespace ClassPtr

/-- The null pointer. -/
def null (H : Hierarchy Class) (c : Class) : ClassPtr H c := ⟨none, fun _ h => nomatch h⟩

/-- The implicit conversion to an unambiguous base; null stays null. -/
def upcast [DecidableEq Class] (T : Class) (p : ClassPtr H c) : ClassPtr H T where
  target := p.target.bind (ObjectRef.upcast T)
  cls_eq q hq := by
    obtain ⟨u, -, hu⟩ := Option.bind_eq_some_iff.mp hq
    exact (Hierarchy.contains_of_upcast (ObjectRef.upcast_eq_some_iff.mp hu).2).2

end ClassPtr

/-! ## The run-time check of `dynamic_cast` -/

namespace ObjectRef

/-- An object of class `T` in the same complete object. -/
def Target (T : Class) (p q : ObjectRef H) : Prop := q.object = p.object ∧ q.cls = T

/-- An object of class `T` that has the designated subobject as a base subobject. -/
def Around (T : Class) (p q : ObjectRef H) : Prop :=
  Target T p q ∧ H.Contains q.subobject p.subobject

/-- The object that the run-time check arrives at: the only object of class `T` around
the designated subobject, or else the only one in the complete object. -/
def Selected (T : Class) (p q : ObjectRef H) : Prop :=
  (Around T p q ∧ ∀ q', Around T p q' → q' = q) ∨
    (¬ ∃! q', Around T p q') ∧ Target T p q ∧ ∀ q', Target T p q' → q' = q

/-- The result of `dynamic_cast<T*>` where `T` is no base of the static class. The
check fails when it arrives at no object. -/
def DynamicCast (T : Class) (p : ObjectRef H) (result : ClassPtr H T) : Prop :=
  ∀ q, result.target = some q ↔ Selected T p q

variable {p q : ObjectRef H}

/-- The check arrives at no more than one object. -/
theorem Selected.unique {q' : ObjectRef H} (h : Selected T p q) (h' : Selected T p q') :
    q = q' := by
  rcases h with ⟨haround, hunique⟩ | ⟨hnone, htarget, hunique⟩
  · rcases h' with ⟨haround', hunique'⟩ | ⟨hnone', -⟩
    · exact hunique' q haround
    · exact absurd ⟨q, haround, hunique⟩ hnone'
  · rcases h' with ⟨haround', hunique'⟩ | ⟨-, htarget', hunique'⟩
    · exact absurd ⟨q', haround', hunique'⟩ hnone
    · exact hunique' q htarget

/-- The object arrived at has the class asked for. -/
theorem Selected.target (h : Selected T p q) : Target T p q := by
  rcases h with ⟨haround, -⟩ | ⟨-, htarget, -⟩
  · exact haround.1
  · exact htarget

/-- The cast has exactly one result. -/
theorem existsUnique_dynamicCast (T : Class) (p : ObjectRef H) :
    ∃! result, DynamicCast T p result := by
  by_cases hsome : ∃ q, Selected T p q
  · obtain ⟨q, hq⟩ := hsome
    refine ⟨q.toPtr hq.target.2, fun q' => ?_, fun result hresult => ?_⟩
    · constructor
      · intro h
        cases h
        exact hq
      · intro hq'
        exact congrArg some (hq.unique hq')
    · exact ClassPtr.ext ((hresult q).mpr hq)
  · refine ⟨ClassPtr.null H T, fun q => ?_, fun result hresult => ?_⟩
    · exact iff_of_false (by simp [ClassPtr.null]) fun hq => hsome ⟨q, hq⟩
    · apply ClassPtr.ext
      cases htarget : result.target with
      | none => rfl
      | some q => exact absurd ⟨q, (hresult q).mp htarget⟩ hsome

end ObjectRef

end CxxObject
