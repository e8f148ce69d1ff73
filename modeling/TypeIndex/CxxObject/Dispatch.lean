import TypeIndex.CxxObject.Cast

/-!
# Member lookup and virtual calls

A member function is declared in some classes and inherited by the others. The name
designates the declaration that hides every other one in the object, and a virtual
call continues to the declaration that overrides it in the complete object. In both
cases one subobject contains every other candidate; without one the name or the
class is ill-formed.
-/

namespace CxxObject

namespace Hierarchy

variable {Class : Type*} {H : Hierarchy Class} {s t t' u : Subobject Class}

/-- Objects that contain each other are the same. -/
theorem Contains.antisymm (hst : H.Contains s t) (hts : H.Contains t s) : s = t := by
  rcases contains_iff.mp hst with rfl | ⟨b, hb, ht⟩
  · rfl
  · have hbase := (ht.trans hts).isBaseOf
    rw [base_cls] at hbase
    exact absurd hbase (not_isBaseOf_of_mem hb)

/-- A base other than the class itself is defined earlier. -/
theorem IsBaseOf.declared_lt {b c : Class} (h : H.IsBaseOf b c) (hne : b ≠ c) :
    H.declared b < H.declared c := by
  obtain ⟨d, hd, hbase⟩ := (isBaseOf_iff.mp h).resolve_left hne.symm
  have hlt := H.declared_lt hd
  have hle := hbase.declared_le
  omega

/-- One subobject of an object is a candidate and contains all other candidates. -/
structure Dominant (H : Hierarchy Class) (candidate : Subobject Class → Prop)
    (s t : Subobject Class) : Prop where
  /-- The subobject lies in the object. -/
  contains : H.Contains s t
  /-- It is a candidate. -/
  holds : candidate t
  /-- Every other candidate lies in it. -/
  hides : ∀ t', H.Contains s t' → candidate t' → H.Contains t t'

section

variable {candidate : Subobject Class → Prop}

/-- There is at most one dominant subobject. -/
theorem Dominant.unique (ht : H.Dominant candidate s t) (ht' : H.Dominant candidate s t') :
    t = t' :=
  (ht.hides t' ht'.contains ht'.holds).antisymm (ht'.hides t ht.contains ht.holds)

/-- An object that is a candidate hides the candidates in it. -/
theorem Dominant.self (h : candidate s) : H.Dominant candidate s s :=
  ⟨Contains.refl s, h, fun _ ht' _ => ht'⟩

/-- An object that is no candidate leaves the choice to its only direct base. -/
theorem Dominant.of_bases {b : Class} (hbases : H.bases s.cls = [b]) (hs : ¬ candidate s)
    (h : H.Dominant candidate (H.base s b) t) : H.Dominant candidate s t := by
  have hmem : b ∈ H.bases s.cls := by
    rw [hbases]
    exact List.mem_singleton_self b
  refine ⟨(contains_base hmem).trans h.contains, h.holds, fun t' ht' hholds => ?_⟩
  rcases contains_iff.mp ht' with rfl | ⟨b', hb', ht'⟩
  · exact absurd hholds hs
  · rw [hbases, List.mem_singleton] at hb'
    rw [hb'] at ht'
    exact h.hides t' ht' hholds

end

/-! ## Computing the dominant subobject -/

variable [DecidableEq Class] {candidate : Subobject Class → Bool}

/-- The list of subobjects decides it. -/
instance : Decidable (H.Contains s t) := decidable_of_iff _ mem_subobjects

/-- Whether a subobject is a candidate that contains all candidates of an object. -/
def isDominant (H : Hierarchy Class) (candidate : Subobject Class → Bool)
    (s t : Subobject Class) : Bool :=
  candidate t && (H.subobjects s).all fun t' => !candidate t' || decide (H.Contains t t')

/-- The candidate in an object that contains all others, if there is one. -/
def dominant (H : Hierarchy Class) (candidate : Subobject Class → Bool) (s : Subobject Class) :
    Option (Subobject Class) :=
  (H.subobjects s).find? (H.isDominant candidate s)

/-- The test on the list of subobjects is the definition. -/
theorem isDominant_eq_true (ht : H.Contains s t) :
    H.isDominant candidate s t = true ↔ H.Dominant (fun t => candidate t = true) s t := by
  simp only [isDominant, Bool.and_eq_true, List.all_eq_true, mem_subobjects, Bool.or_eq_true,
    Bool.not_eq_true', decide_eq_true_eq]
  constructor
  · rintro ⟨hholds, hhides⟩
    refine ⟨ht, hholds, fun t' ht' hholds' => (hhides t' ht').resolve_left ?_⟩
    rw [hholds']
    exact Bool.noConfusion
  · intro h
    refine ⟨h.holds, fun t' ht' => ?_⟩
    cases hholds' : candidate t' with
    | false => exact Or.inl rfl
    | true => exact Or.inr (h.hides t' ht' hholds')

/-- The search finds the dominant subobject, if there is one. -/
theorem dominant_eq_some :
    H.dominant candidate s = some t ↔ H.Dominant (fun t => candidate t = true) s t := by
  constructor
  · intro h
    have hmem := mem_subobjects.mp (List.mem_of_find?_eq_some h)
    exact (isDominant_eq_true hmem).mp (List.find?_some h)
  · intro h
    cases hfind : H.dominant candidate s with
    | none =>
      have hnone := List.find?_eq_none.mp hfind t (mem_subobjects.mpr h.contains)
      exact absurd ((isDominant_eq_true h.contains).mpr h) hnone
    | some t' =>
      have hmem := mem_subobjects.mp (List.mem_of_find?_eq_some hfind)
      rw [((isDominant_eq_true hmem).mp (List.find?_some hfind)).unique h]

/-- Bases of an only direct base are unambiguous when they are so in it. -/
theorem unambiguousBase_of_bases {b c d : Class} (hbases : H.bases c = [d])
    (h : H.UnambiguousBase b d) : H.UnambiguousBase b c := by
  have hd : d ∈ H.bases c := by
    rw [hbases]
    exact List.mem_singleton_self d
  have hcls : (H.base (.complete c) d).cls = d := base_cls H _ d
  have hbase := h.isBaseOf
  rw [← hcls] at h
  obtain ⟨t, ⟨ht, htcls⟩, hunique⟩ := unambiguousBase_iff.mp h
  refine ⟨t, ⟨(contains_base hd).trans ht, htcls⟩, ?_⟩
  rintro t' ⟨ht', htcls'⟩
  rcases contains_iff.mp ht' with rfl | ⟨d', hd', ht'⟩
  · rw [Subobject.complete_cls] at htcls'
    rw [← htcls'] at hbase
    exact absurd hbase (not_isBaseOf_of_mem hd)
  · rw [Subobject.complete_cls, hbases, List.mem_singleton] at hd'
    rw [hd'] at ht'
    exact hunique t' ⟨ht', htcls'⟩

/-! ## Names and virtual functions -/

/-- The subobject whose declaration a member name designates in an object. -/
def lookup (H : Hierarchy Class) (declares : Class → Bool) (s : Subobject Class) :
    Option (Subobject Class) :=
  H.dominant (fun t => declares t.cls) s

/-- The subobject of a complete object whose declaration overrides that of another one. -/
def finalOverrider (H : Hierarchy Class) (declares : Class → Bool) (s t : Subobject Class) :
    Option (Subobject Class) :=
  H.dominant (fun t' => declares t'.cls && decide (H.Contains t' t)) s

variable {declares : Class → Bool}

/-- A class that declares the name hides those of its bases. -/
theorem lookup_self (h : declares s.cls = true) : H.lookup declares s = some s :=
  dominant_eq_some.mpr (.self h)

/-- A declaration in the class of an object overrides all others in it. -/
theorem finalOverrider_self (h : declares s.cls = true) (ht : H.Contains s t) :
    H.finalOverrider declares s t = some s :=
  dominant_eq_some.mpr (.self (by simp [h, ht]))

/-- The lookup ends at a subobject whose class declares the name. -/
theorem lookup_eq_some (h : H.lookup declares s = some t) :
    H.Contains s t ∧ declares t.cls = true :=
  ⟨(dominant_eq_some.mp h).contains, (dominant_eq_some.mp h).holds⟩

/-- The overrider declares the function and contains the subobject it is called for. -/
theorem finalOverrider_eq_some {u : Subobject Class} (h : H.finalOverrider declares s t = some u) :
    H.Contains s u ∧ declares u.cls = true ∧ H.Contains u t := by
  have hholds := (dominant_eq_some.mp h).holds
  rw [Bool.and_eq_true, decide_eq_true_eq] at hholds
  exact ⟨(dominant_eq_some.mp h).contains, hholds⟩

/-- Placing keeps containment between subobjects of a complete object. -/
theorem Contains.place_mono (hs : H.Contains (.complete u.cls) s) (ht : H.Contains s t) :
    H.Contains (u.place s) (u.place t) := by
  induction ht with
  | refl => exact Contains.refl _
  | tail hr hstep ih =>
    obtain ⟨b, hb, rfl⟩ := hstep
    rw [place_base (hs.trans hr) hb]
    refine ih.trans (contains_base ?_)
    rwa [Subobject.place_cls]

/-- Where a complete object dominates, so does its place. -/
theorem lookup_place (h : H.lookup declares (.complete u.cls) = some t) :
    H.lookup declares u = some (u.place t) := by
  have hdominant := dominant_eq_some.mp h
  refine dominant_eq_some.mpr ⟨hdominant.contains.place, ?_, fun t' ht' hholds' => ?_⟩
  · rw [Subobject.place_cls]
    exact hdominant.holds
  · obtain ⟨s', hs', rfl⟩ := ht'.exists_place
    rw [Subobject.place_cls] at hholds'
    exact hdominant.contains.place_mono (hdominant.hides s' hs' hholds')

end Hierarchy

namespace ObjectRef

variable {Class : Type*} {H : Hierarchy Class} [DecidableEq Class]

/-- The object whose declaration a member name designates. -/
def lookup (declares : Class → Bool) (p : ObjectRef H) : Option (ObjectRef H) :=
  match h : H.lookup declares p.subobject with
  | none => none
  | some t => some (p.inner t (Hierarchy.lookup_eq_some h).1)

/-- The object whose declaration the qualified call `p->T::f()` runs. -/
def qualifiedCall (declares : Class → Bool) (T : Class) (p : ObjectRef H) :
    Option (ObjectRef H) :=
  (p.upcast T).bind (lookup declares)

/-- The object whose declaration the virtual call `p->f()` runs. Without one the name
or its overrider is ambiguous and the program does not compile. -/
def virtualCall (declares : Class → Bool) (p : ObjectRef H) : Option (ObjectRef H) := do
  let q ← p.lookup declares
  match h : H.finalOverrider declares (.complete p.object.cls) q.subobject with
  | none => none
  | some r => some (p.mostDerived.inner r (Hierarchy.finalOverrider_eq_some h).1)

variable {declares : Class → Bool} {p q r : ObjectRef H} {T : Class}

/-- A lookup through an object stays in its complete object. -/
theorem lookup_eq_some : p.lookup declares = some q ↔
    q.object = p.object ∧ H.lookup declares p.subobject = some q.subobject := by
  unfold lookup
  split
  next hnone => simp [hnone]
  next t hsome =>
    constructor
    · intro h
      cases h
      exact ⟨rfl, hsome⟩
    · rintro ⟨hobject, hq⟩
      have ht : t = q.subobject := Option.some.inj (hsome.symm.trans hq)
      exact congrArg some (ObjectRef.ext hobject.symm ht)

/-- A name designates the object itself when its class declares the member. -/
theorem lookup_self (h : declares p.cls = true) : p.lookup declares = some p :=
  lookup_eq_some.mpr ⟨rfl, Hierarchy.lookup_self h⟩

/-- A virtual call runs the final overrider of what the name designates. -/
theorem virtualCall_eq_some : p.virtualCall declares = some r ↔
    r.object = p.object ∧ ∃ q, p.lookup declares = some q ∧
      H.finalOverrider declares (.complete p.object.cls) q.subobject = some r.subobject := by
  unfold virtualCall
  simp only [Option.bind_eq_bind, Option.bind_eq_some_iff]
  constructor
  · rintro ⟨q, hq, hr⟩
    split at hr
    · cases hr
    · next t ht =>
      cases hr
      exact ⟨rfl, q, hq, ht⟩
  · rintro ⟨hobject, q, hq, hr⟩
    refine ⟨q, hq, ?_⟩
    split
    next hnone => rw [hnone] at hr; cases hr
    next t ht =>
      have htr : t = r.subobject := Option.some.inj (ht.symm.trans hr)
      exact congrArg some (ObjectRef.ext hobject.symm htr)

/-- A virtual call stays in the complete object, in a class that declares the function,
around the declaration that the name designates. -/
theorem virtualCall_spec (h : p.virtualCall declares = some r) :
    r.object = p.object ∧ declares r.cls = true ∧
      ∃ q, p.lookup declares = some q ∧ H.Contains r.subobject q.subobject := by
  obtain ⟨hobject, q, hq, hr⟩ := virtualCall_eq_some.mp h
  obtain ⟨-, hdeclares, hcontains⟩ := Hierarchy.finalOverrider_eq_some hr
  exact ⟨hobject, hdeclares, q, hq, hcontains⟩

/-- The class of the complete object has the last word: when it declares the function, a
call through any name that compiles runs on the complete object. -/
theorem virtualCall_mostDerived (h : declares p.object.cls = true)
    (hlookup : p.lookup declares = some q) : p.virtualCall declares = some p.mostDerived := by
  refine virtualCall_eq_some.mpr ⟨rfl, q, hlookup, Hierarchy.finalOverrider_self h ?_⟩
  obtain ⟨-, hq⟩ := lookup_eq_some.mp hlookup
  exact p.inside.trans (Hierarchy.lookup_eq_some hq).1

/-- A qualified call stays in the object and runs a declaration of a base. -/
theorem qualifiedCall_spec (h : p.qualifiedCall declares T = some r) :
    r.object = p.object ∧ H.Contains p.subobject r.subobject ∧ declares r.cls = true ∧
      H.IsBaseOf r.cls T := by
  obtain ⟨q, hq, hr⟩ := Option.bind_eq_some_iff.mp h
  obtain ⟨hobject, hupcast⟩ := upcast_eq_some_iff.mp hq
  obtain ⟨hobject', hlookup⟩ := lookup_eq_some.mp hr
  obtain ⟨hcontains, rfl⟩ := Hierarchy.contains_of_upcast hupcast
  obtain ⟨hcontains', hdeclares⟩ := Hierarchy.lookup_eq_some hlookup
  exact ⟨hobject'.trans hobject, hcontains.trans hcontains', hdeclares, hcontains'.isBaseOf⟩

/-- A qualified call compiles when the base is unambiguous and the name has one
declaration in it. Which one it is depends on the classes only. -/
theorem exists_qualifiedCall {t : Subobject Class} (hbase : H.UnambiguousBase T p.cls)
    (hlookup : H.lookup declares (.complete T) = some t) :
    ∃ r, p.qualifiedCall declares T = some r ∧ r.cls = t.cls := by
  obtain ⟨s, ⟨hs, hcls⟩, -⟩ := Hierarchy.unambiguousBase_iff.mp hbase
  have hupcast : p.upcast T = some (p.inner s hs) :=
    upcast_eq_some_iff.mpr ⟨rfl, (Hierarchy.upcast_eq_some hbase).mpr ⟨hs, hcls⟩⟩
  subst hcls
  have hplace : H.lookup declares s = some (s.place t) := Hierarchy.lookup_place hlookup
  have hcontains : H.Contains s (s.place t) := (Hierarchy.lookup_eq_some hplace).1
  refine ⟨(p.inner s hs).inner _ hcontains, ?_, Subobject.place_cls s t⟩
  refine Option.bind_eq_some_iff.mpr ⟨_, hupcast, ?_⟩
  exact lookup_eq_some.mpr ⟨rfl, hplace⟩

end ObjectRef

end CxxObject
