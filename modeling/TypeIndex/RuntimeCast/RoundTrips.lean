import TypeIndex.CxxObject.Dispatch
import TypeIndex.RuntimeCast.Chains

/-!
# Round trips and paths of casts

A search does not look at the subobject it is called through, so a cast that searches
forgets the way by which its source was reached. A cast to a base and back returns
to the source when that is the subobject the search prefers, and a cast to a derived
class and back when the object found contains the source.
-/

namespace TypeIndex

open CxxObject

namespace RuntimeClasses

variable {Class Index : Type*} [DecidableEq Class] {H : Hierarchy Class}
  {R : RuntimeClasses H Index} {U U' S T : Class}

/-- A cast that searches depends on the complete object of its source only. -/
theorem runtimePointerCast_eq_search {u : ClassPtr H U} {p : ObjectRef H}
    (hu : u.target = some p) (hbase : ¬ H.IsBaseOf T U) :
    R.runtimePointerCast T u = staticCast T (R.callFindInstance (R.typeId T) p) := by
  unfold runtimePointerCast
  rw [Bool.eq_false_iff.mpr fun h => hbase (isBaseOf_plain.mp h)]
  unfold runtimeCastImpl
  rw [hu]

/-! ## Paths -/

/-- What a chain of casts does before a search does not matter. Two chains that have
reached objects in one complete object, by whatever casts and from whatever pointers
into it, and go on alike from a cast that searches have the same result. -/
theorem castChain_search_congr (R : RuntimeClasses H Index) (u : ClassPtr H U)
    (u' : ClassPtr H U') {p p' q q' : ObjectRef H} {before before' : List Class}
    {v v' : Σ c, ClassPtr H c} (hu : u.target = some p) (hu' : u'.target = some p')
    (hobject : p.object = p'.object)
    (hv : castChain R.runtimePointerCast ⟨U, u⟩ before = .ok v)
    (hv' : castChain R.runtimePointerCast ⟨U', u'⟩ before' = .ok v')
    (hq : v.2.target = some q) (hq' : v'.2.target = some q')
    (hS : ¬ H.IsBaseOf S v.1) (hS' : ¬ H.IsBaseOf S v'.1) (after : List Class) :
    castChain R.runtimePointerCast ⟨U, u⟩ (before ++ S :: after) =
      castChain R.runtimePointerCast ⟨U', u'⟩ (before' ++ S :: after) := by
  have hsame : q.object = q'.object := by
    rw [castChain_object hu hv hq, castChain_object hu' hv' hq', hobject]
  have hsearch : R.runtimePointerCast S v.2 = R.runtimePointerCast S v'.2 := by
    rw [runtimePointerCast_eq_search hq hS, runtimePointerCast_eq_search hq' hS',
      callFindInstance, callFindInstance, ObjectRef.mostDerived_congr hsame]
  rw [castChain_append, castChain_append, hv, hv']
  change castChain _ v _ = castChain _ v' _
  rw [castChain_cons, castChain_cons, hsearch]

/-! ## Chains of references -/

/-- The reference form throws exactly when the search fails, and otherwise returns what
the search returns. -/
theorem runtimeCastReference_eq (R : RuntimeClasses H Index) (T : Class) (u : ObjectRef H) :
    R.runtimeCastReference T u = match R.callFindInstance (R.typeId T) u with
      | none => .error .badRuntimeCast
      | some p => .ok p := by
  obtain ⟨value, hvalue, htarget⟩ := R.runtimeCastImpl_search (T := T) u rfl
  have himpl : R.runtimeCastImpl T (u.toPtr rfl)
      (CastArgument.isBaseOf H (.reference T) (.plain u.cls)) = .ok value := hvalue
  unfold runtimeCastReference
  rw [himpl, ← htarget]
  rfl

/-- A cast of a reference is valid when the complete object has the class, and stays in
that object. -/
theorem runtimeCastReference_of_isBaseOf (R : RuntimeClasses H Index) {u : ObjectRef H}
    (h : H.IsBaseOf T u.object.cls) :
    ∃ p, R.runtimeCastReference T u = .ok p ∧ ObjectRef.Target T u p := by
  rw [runtimeCastReference_eq]
  cases hfound : R.callFindInstance (R.typeId T) u with
  | none => exact absurd h (R.callFindInstance_eq_none_iff.mp hfound)
  | some p => exact ⟨p, rfl, target_of_callFindInstance hfound⟩

/-- Subobjects of one object are cast alike. -/
theorem runtimeCastReference_congr (R : RuntimeClasses H Index) (T : Class) {p q : ObjectRef H}
    (h : p.object = q.object) : R.runtimeCastReference T p = R.runtimeCastReference T q := by
  rw [runtimeCastReference_eq, runtimeCastReference_eq, callFindInstance, callFindInstance,
    ObjectRef.mostDerived_congr h]

/-- The casts of references in a list of classes, one after the other. -/
def referenceChain (R : RuntimeClasses H Index) (u : ObjectRef H) (Ts : List Class) :
    Except CastError (ObjectRef H) :=
  Ts.foldlM (fun p T => R.runtimeCastReference T p) u

/-- The first cast continues at an object of the same complete object, or throws. -/
theorem referenceChain_cons (R : RuntimeClasses H Index) {u p : ObjectRef H}
    (hobject : p.object = u.object) (T : Class) (Ts : List Class) :
    R.referenceChain p (T :: Ts) = (R.runtimeCastReference T u).bind fun q =>
      R.referenceChain q Ts := by
  unfold referenceChain
  rw [List.foldlM_cons, runtimeCastReference_congr R T hobject]
  rfl

/-- A chain throws when the complete object lacks one of the classes. -/
theorem referenceChain_error (R : RuntimeClasses H Index) {u p : ObjectRef H} {Ts : List Class}
    (hobject : p.object = u.object) (h : ∃ T ∈ Ts, ¬ H.IsBaseOf T u.object.cls) :
    R.referenceChain p Ts = .error .badRuntimeCast := by
  induction Ts generalizing p with
  | nil => simp at h
  | cons T Ts ih =>
    obtain ⟨S, hS, hnot⟩ := h
    rw [R.referenceChain_cons hobject]
    by_cases hT : H.IsBaseOf T u.object.cls
    · obtain ⟨q, hq, hqobject, -⟩ := R.runtimeCastReference_of_isBaseOf hT
      have hmem : S ∈ Ts := (List.mem_cons.mp hS).resolve_left fun hST => hnot (hST ▸ hT)
      rw [hq]
      exact ih hqobject ⟨S, hmem, hnot⟩
    · rw [runtimeCastReference_eq, R.callFindInstance_eq_none_iff.mpr hT]
      rfl

/-- Otherwise it returns what its last cast alone returns. -/
theorem referenceChain_ok (R : RuntimeClasses H Index) {u p : ObjectRef H} {Ts : List Class}
    (hobject : p.object = u.object) (h : ∀ T ∈ Ts, H.IsBaseOf T u.object.cls) :
    ∃ q, R.referenceChain p Ts = .ok q ∧ q.object = u.object ∧
      ∀ T, Ts.getLast? = some T → R.runtimeCastReference T u = .ok q := by
  induction Ts generalizing p with
  | nil => exact ⟨p, rfl, hobject, by simp⟩
  | cons T Ts ih =>
    obtain ⟨q, hq, hqobject, -⟩ := R.runtimeCastReference_of_isBaseOf (h T List.mem_cons_self)
    obtain ⟨r, hr, hrobject, hlast⟩ := ih hqobject fun S hS => h S (List.mem_cons_of_mem _ hS)
    refine ⟨r, ?_, hrobject, fun S hS => ?_⟩
    · rw [R.referenceChain_cons hobject, hq]
      exact hr
    · cases Ts with
      | nil =>
        cases hS
        cases hr
        exact hq
      | cons T' Ts =>
        rw [List.getLast?_cons_cons] at hS
        exact hlast S hS

/-- Casts of references propagate failure and nothing else. A chain of them throws exactly
when the complete object lacks one of the classes, is never undefined, and otherwise
returns the object that its last cast alone returns. -/
theorem runtimeCastReference_chain (R : RuntimeClasses H Index) (u : ObjectRef H)
    (Ts : List Class) :
    (R.referenceChain u Ts = .error .badRuntimeCast ↔ ∃ T ∈ Ts, ¬ H.IsBaseOf T u.object.cls) ∧
    (∀ e, R.referenceChain u Ts = .error e → e = .badRuntimeCast) ∧
    ∀ p, R.referenceChain u Ts = .ok p → p.object = u.object ∧
      ∀ T, Ts.getLast? = some T → R.runtimeCastReference T u = .ok p ∧ p.cls = T := by
  by_cases hmissing : ∃ T ∈ Ts, ¬ H.IsBaseOf T u.object.cls
  · have herror := R.referenceChain_error (u := u) rfl hmissing
    refine ⟨iff_of_true herror hmissing, fun e he => ?_, fun p hp => ?_⟩
    · cases herror.symm.trans he
      rfl
    · cases herror.symm.trans hp
  · have hall : ∀ T ∈ Ts, H.IsBaseOf T u.object.cls := fun T hT => by
      by_contra hnot
      exact hmissing ⟨T, hT, hnot⟩
    obtain ⟨q, hq, hqobject, hlast⟩ := R.referenceChain_ok (u := u) rfl hall
    refine ⟨iff_of_false (fun he => ?_) hmissing, fun e he => ?_, fun p hp => ?_⟩
    · cases hq.symm.trans he
    · cases hq.symm.trans he
    · cases hq.symm.trans hp
      refine ⟨hqobject, fun T hT => ⟨hlast T hT, ?_⟩⟩
      obtain ⟨r, hr, -, hcls⟩ := R.runtimeCastReference_of_isBaseOf
        (hall T (List.mem_of_getLast? hT))
      cases (hlast T hT).symm.trans hr
      exact hcls

/-! ## Round trips -/

/-- The cast to an unambiguous base designates the base subobject in the source. -/
theorem runtimePointerCast_inner (R : RuntimeClasses H Index) {u : ObjectRef H}
    (hbase : H.UnambiguousBase T u.cls) :
    ∃ t, ∃ ht : H.Contains u.subobject t, ∃ v, R.runtimePointerCast T (u.toPtr rfl) = .ok v ∧
      v.target = some (u.inner t ht) := by
  obtain ⟨t, ⟨ht, htcls⟩, -⟩ := Hierarchy.unambiguousBase_iff.mp hbase
  have hupcast : u.upcast T = some (u.inner t ht) := ObjectRef.upcast_eq_some_iff.mpr
    ⟨rfl, (Hierarchy.upcast_eq_some hbase).mpr ⟨ht, htcls⟩⟩
  exact ⟨t, ht, _, (R.runtimePointerCast_eq_ok_iff hbase.isBaseOf).mpr ⟨hbase, rfl⟩, hupcast⟩

/-- A cast to a base and back to the static class is defined, and returns to the source
exactly when the source is the subobject of its class that is listed first in the
complete object. -/
theorem upcast_roundTrip_iff (R : RuntimeClasses H Index) (u : ObjectRef H)
    (hbase : H.UnambiguousBase T u.cls) (hne : T ≠ u.cls) :
    ∃ v w, R.runtimePointerCast T (u.toPtr rfl) = .ok v ∧
      R.runtimePointerCast u.cls v = .ok w ∧
      (w.target = some u ↔ R.FirstListed u.cls (.complete u.object.cls) u.subobject) := by
  obtain ⟨t, ht, v, hv, hvtarget⟩ := R.runtimePointerCast_inner hbase
  have hback : ¬ H.IsBaseOf u.cls T := by
    intro h
    have hle := h.declared_le
    have hlt := hbase.isBaseOf.declared_lt hne
    omega
  have hsearch := runtimePointerCast_eq_search (R := R) hvtarget hback
  obtain ⟨w, hw, hwtarget⟩ := staticCast_target fun q hq =>
    (target_of_callFindInstance (T := u.cls) (u := u.inner t ht) hq).2
  refine ⟨v, w, hv, hsearch.trans hw, ?_⟩
  rw [hwtarget, R.callFindInstance_eq_some_iff]
  exact and_iff_right rfl

/-- A cast to a derived class and back is defined. It ends in a null pointer exactly when
the complete object has no subobject of the derived class, and returns to the source
exactly when the one listed first contains it. -/
theorem downcast_roundTrip_iff (R : RuntimeClasses H Index) (u : ObjectRef H)
    (hbase : H.UnambiguousBase u.cls T) (hne : u.cls ≠ T) :
    ∃ v w, R.runtimePointerCast T (u.toPtr rfl) = .ok v ∧
      R.runtimePointerCast u.cls v = .ok w ∧
      (w.target = none ↔ ¬ H.IsBaseOf T u.object.cls) ∧
      (w.target = some u ↔ ∃ s, R.FirstListed T (.complete u.object.cls) s ∧
        H.Contains s u.subobject) := by
  have hdown : ¬ H.IsBaseOf T u.cls := by
    intro h
    have hle := h.declared_le
    have hlt := hbase.isBaseOf.declared_lt hne
    omega
  obtain ⟨v, hv, hvtarget⟩ := R.runtimePointerCast_search hdown
  have hup : R.runtimePointerCast u.cls v = .ok (v.upcast u.cls) :=
    (R.runtimePointerCast_eq_ok_iff hbase.isBaseOf).mpr ⟨hbase, rfl⟩
  refine ⟨v, _, hv, hup, ?_⟩
  cases hfound : R.callFindInstance (R.typeId T) u with
  | none =>
    rw [hfound] at hvtarget
    have hnull : (v.upcast u.cls).target = none := upcast_null hvtarget
    have hnot := R.callFindInstance_eq_none_iff.mp hfound
    rw [hnull]
    refine ⟨iff_of_true rfl hnot, iff_of_false (by simp) ?_⟩
    rintro ⟨s, hs, -⟩
    exact hnot hs.isBaseOf
  | some q =>
    rw [hfound] at hvtarget
    obtain ⟨hobject, hlisted⟩ := R.callFindInstance_eq_some_iff.mp hfound
    have hqbase : H.UnambiguousBase u.cls q.cls := by
      rwa [(target_of_callFindInstance hfound).2]
    have htarget : (v.upcast u.cls).target = q.upcast u.cls := by
      change v.target.bind _ = _
      rw [hvtarget]
      rfl
    obtain ⟨t, ⟨ht, htcls⟩, -⟩ := Hierarchy.unambiguousBase_iff.mp hqbase
    have hinner : q.upcast u.cls = some (q.inner t ht) := ObjectRef.upcast_eq_some_iff.mpr
      ⟨rfl, (Hierarchy.upcast_eq_some hqbase).mpr ⟨ht, htcls⟩⟩
    rw [htarget]
    constructor
    · rw [hinner]
      exact iff_of_false (by simp) (not_not_intro hlisted.isBaseOf)
    · rw [ObjectRef.upcast_eq_some_iff, Hierarchy.upcast_eq_some hqbase]
      constructor
      · rintro ⟨-, hcontains, -⟩
        exact ⟨q.subobject, hlisted, hcontains⟩
      · rintro ⟨s, hs, hcontains⟩
        have hsame : u.mostDerived.inner s hs.contains.1 = q := by
          apply Option.some.inj
          rw [← hfound]
          exact (R.callFindInstance_eq_some_iff.mpr ⟨rfl, hs⟩).symm
        rw [← hsame]
        exact ⟨rfl, hcontains, rfl⟩

end RuntimeClasses

/-! ### A class that is a base twice -/

/-- `derived` has one base of class `base`. -/
theorem repeated_unambiguous : repeatedHierarchy.UnambiguousBase .base .derived :=
  Hierarchy.unambiguousBase_of_bases rfl (Hierarchy.unambiguousBase_self _)

/-- `left` is no base of the classes declared before it. -/
theorem not_isBaseOf_left {c : RepeatedClass} (h : c = .base ∨ c = .derived) :
    ¬ repeatedHierarchy.IsBaseOf .left c := by
  intro hbase
  have hle := hbase.declared_le
  rcases h with rfl | rfl <;> revert hle <;> decide

/-- The casts to `derived` and on to `left` and `base`, from `base` in `right`, end where the
casts to `base` and on to these classes do, from `derived` in `left`. -/
theorem castChain_search_congr_repeated :
    castChain repeatedClasses.runtimePointerCast ⟨.base, rightBase.toPtr rfl⟩
        ([.derived] ++ [.left, .base]) =
      castChain repeatedClasses.runtimePointerCast ⟨.derived, leftDerived.toPtr rfl⟩
        ([.base] ++ [.left, .base]) := by
  obtain ⟨v, q, hv, hq, -⟩ := repeatedClasses.exists_runtimePointerCast (T := .derived)
    (u := rightBase.toPtr rfl) rfl (fun h => absurd h not_isBaseOf_rightBase)
    (rightDerived.inside.isBaseOf)
  obtain ⟨v', q', hv', hq', -⟩ := repeatedClasses.exists_runtimePointerCast (T := .base)
    (u := leftDerived.toPtr rfl) rfl (fun _ => repeated_unambiguous) rightBase.inside.isBaseOf
  exact repeatedClasses.castChain_search_congr (rightBase.toPtr rfl) (leftDerived.toPtr rfl)
    rfl rfl rfl (castChain_cons_eq_ok.mpr ⟨v, hv, rfl⟩) (castChain_cons_eq_ok.mpr ⟨v', hv', rfl⟩)
    hq hq' (not_isBaseOf_left (Or.inr rfl)) (not_isBaseOf_left (Or.inl rfl)) [.base]

/-- The condition for the way from `derived` in `right` to `base` and back. -/
theorem upcast_roundTrip_iff_repeated :
    ∃ v w, repeatedClasses.runtimePointerCast .base (rightDerived.toPtr rfl) = .ok v ∧
      repeatedClasses.runtimePointerCast .derived v = .ok w ∧
      (w.target = some rightDerived ↔ repeatedClasses.FirstListed .derived
        (.complete rightDerived.object.cls) rightDerived.subobject) :=
  repeatedClasses.upcast_roundTrip_iff rightDerived repeated_unambiguous (by decide)

/-- The condition for the way from `base` in `right` to `derived` and back. -/
theorem downcast_roundTrip_iff_repeated :
    ∃ v w, repeatedClasses.runtimePointerCast .derived (rightBase.toPtr rfl) = .ok v ∧
      repeatedClasses.runtimePointerCast .base v = .ok w ∧
      (w.target = none ↔ ¬ repeatedHierarchy.IsBaseOf .derived rightBase.object.cls) ∧
      (w.target = some rightBase ↔ ∃ s, repeatedClasses.FirstListed .derived
        (.complete rightBase.object.cls) s ∧
        repeatedHierarchy.Contains s rightBase.subobject) :=
  repeatedClasses.downcast_roundTrip_iff rightBase repeated_unambiguous (by decide)

end TypeIndex
