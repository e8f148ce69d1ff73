import TypeIndex.RuntimeCast.Casts
import Mathlib.Data.List.Chain

/-!
# Chains of casts

The result of one cast may be the source of the next one. An implicit conversion takes
a null pointer to a null pointer, while the search is a virtual call through it. So a
chain of casts is defined exactly when no search follows its first failure, and then
every cast behind the failure fails too.
-/

namespace TypeIndex

open CxxObject

section Chain

universe v

variable {Class : Type v} {F G : Class → Type v}

/-- The casts to the given classes one after the other. The static class of each source
is the target class of the cast before it. -/
def castChain (cast : ∀ {U : Class} (T : Class), F U → Except CastError (F T)) (u : Σ c, F c)
    (Ts : List Class) : Except CastError (Σ c, F c) :=
  Ts.foldlM (fun v T => Sigma.mk T <$> cast T v.2) u

/-- Failure of a cast in a chain reaches its end: the chain is defined, casts behind a
failed one fail, and without a failure the chain does what its last cast does alone
when each class has a unique subobject. -/
structure PropagatesFailure (cast : ∀ {U : Class} (T : Class), F U → Except CastError (F T))
    (Failed : ∀ {c}, F c → Prop) (unique : Prop) (u : Σ c, F c) (Ts : List Class) : Prop where
  /-- No cast of the chain is undefined. -/
  defined : ∃ v, castChain cast u Ts = .ok v
  /-- After a failed cast every later one fails. -/
  failed_later : ∀ before later v, before ≠ [] → before ++ later <+: Ts →
    castChain cast u before = .ok v → Failed v.2 →
    ∃ w, castChain cast u (before ++ later) = .ok w ∧ Failed w.2
  /-- Without a failure the last cast alone gives the same result. -/
  single : unique →
    (∀ before v, before ≠ [] → before <+: Ts → castChain cast u before = .ok v → ¬ Failed v.2) →
    ∀ T, Ts.getLast? = some T → castChain cast u Ts = castChain cast u [T]

variable {cast : ∀ {U : Class} (T : Class), F U → Except CastError (F T)}
  {cast' : ∀ {U : Class} (T : Class), G U → Except CastError (G T)} {u : Σ c, F c}

/-- A chain is its first cast and the chain of the others. -/
theorem castChain_cons (T : Class) (Ts : List Class) :
    castChain @cast u (T :: Ts) =
      (cast T u.2).bind fun v => castChain @cast ⟨T, v⟩ Ts := by
  rw [castChain, List.foldlM_cons]
  cases cast T u.2 <;> rfl

/-- A chain is one part and then the other. -/
theorem castChain_append (before later : List Class) :
    castChain @cast u (before ++ later) =
      (castChain @cast u before).bind fun v => castChain @cast v later := by
  rw [castChain, List.foldlM_append]
  rfl

/-- A chain with a result is a cast with a result, followed by such a chain. -/
theorem castChain_cons_eq_ok {T : Class} {Ts : List Class} {w : Σ c, F c} :
    castChain @cast u (T :: Ts) = .ok w ↔
      ∃ v, cast T u.2 = .ok v ∧ castChain @cast ⟨T, v⟩ Ts = .ok w := by
  rw [castChain_cons]
  cases cast T u.2 with
  | error e => simp [Except.bind]
  | ok v => simp [Except.bind]

/-- Casts that correspond step by step make corresponding chains. -/
theorem castChain_map {f : ∀ {c}, F c → G c}
    (hstep : ∀ {c} (T : Class) (v : F c), cast' T (f v) = f <$> cast T v) (Ts : List Class) :
    castChain @cast' ⟨u.1, f u.2⟩ Ts = (fun w => ⟨w.1, f w.2⟩) <$> castChain @cast u Ts := by
  induction Ts generalizing u with
  | nil => rfl
  | cons T Ts ih =>
    rw [castChain_cons, castChain_cons, hstep]
    cases cast T u.2 with
    | error e => rfl
    | ok v => exact ih (u := ⟨T, v⟩)

/-- Chains that correspond to chains through which failure propagates do the same. -/
theorem PropagatesFailure.map {f : ∀ {c}, F c → G c} {Failed : ∀ {c}, F c → Prop}
    {Failed' : ∀ {c}, G c → Prop} {unique : Prop} {u' : Σ c, G c} {Ts : List Class}
    (h : PropagatesFailure @cast @Failed unique u Ts)
    (hchain : ∀ Ts, Ts ≠ [] →
      castChain @cast' u' Ts = (fun w => ⟨w.1, f w.2⟩) <$> castChain @cast u Ts)
    (hfailed : ∀ {c} (v : F c), Failed' (f v) ↔ Failed v) :
    PropagatesFailure @cast' @Failed' unique u' Ts := by
  have hresult : ∀ Ts w', Ts ≠ [] → castChain @cast' u' Ts = .ok w' →
      ∃ w, castChain @cast u Ts = .ok w ∧ w' = ⟨w.1, f w.2⟩ := by
    intro Ts w' hTs hw'
    rw [hchain Ts hTs] at hw'
    cases hw : castChain @cast u Ts with
    | error e =>
      rw [hw] at hw'
      cases hw'
    | ok w =>
      rw [hw] at hw'
      exact ⟨w, rfl, (Except.ok.inj hw').symm⟩
  refine ⟨?_, ?_, ?_⟩
  · by_cases hTs : Ts = []
    · exact ⟨u', by rw [hTs]; rfl⟩
    · obtain ⟨w, hw⟩ := h.defined
      exact ⟨_, by rw [hchain Ts hTs, hw]; rfl⟩
  · intro before later v' hbefore hprefix hv' hv'failed
    obtain ⟨v, hv, rfl⟩ := hresult before v' hbefore hv'
    obtain ⟨w, hw, hwfailed⟩ :=
      h.failed_later before later v hbefore hprefix hv ((hfailed v.2).mp hv'failed)
    refine ⟨⟨w.1, f w.2⟩, ?_, (hfailed w.2).mpr hwfailed⟩
    rw [hchain _ (List.append_ne_nil_of_left_ne_nil hbefore later), hw]
    rfl
  · intro hunique hsucceeds T hT
    have hTs : Ts ≠ [] := by
      rintro rfl
      cases hT
    rw [hchain Ts hTs, hchain [T] (List.cons_ne_nil T []), h.single hunique ?_ T hT]
    intro before v hbefore hprefix hv hvfailed
    refine hsucceeds before ⟨v.1, f v.2⟩ hbefore hprefix ?_ ((hfailed v.2).mpr hvfailed)
    rw [hchain before hbefore, hv]
    rfl

end Chain

/-! ## Where a chain searches -/

section Conditions

variable {Class : Type*} {H : Hierarchy Class} {U T : Class} {Ts : List Class}

/-- A chain of casts compiles: every upward step is to an unambiguous base. -/
def ChainCompiles (H : Hierarchy Class) (U : Class) (Ts : List Class) : Prop :=
  (U :: Ts).IsChain fun U T => H.IsBaseOf T U → H.UnambiguousBase T U

/-- Every step of a chain is upward. -/
def Upward (H : Hierarchy Class) (Ts : List Class) : Prop :=
  Ts.IsChain fun U T => H.IsBaseOf T U

/-- No search follows a failure: from the first target on that is neither the class of
the complete object nor a base of it, and from the start when that is null, every step
is upward. -/
def NoSearchAfterFailure {U : Class} (u : ClassPtr H U) (Ts : List Class) : Prop :=
  (u.target = none → Upward H (U :: Ts)) ∧
    ∀ p, u.target = some p → ∀ before T after, Ts = before ++ T :: after →
      ¬ H.IsBaseOf T p.object.cls → Upward H (T :: after)

/-- Behind a null pointer a chain without a search has upward casts only. -/
theorem noSearchAfterFailure_null {u : ClassPtr H U} (hu : u.target = none) :
    NoSearchAfterFailure u Ts ↔ Upward H (U :: Ts) := by
  refine ⟨fun h => h.1 hu, fun h => ⟨fun _ => h, fun p hp => ?_⟩⟩
  rw [hu] at hp
  cases hp

/-- Behind an object a chain without a search after a failure goes upward from every failure. -/
theorem noSearchAfterFailure_object {u : ClassPtr H U} {p : ObjectRef H}
    (hu : u.target = some p) :
    NoSearchAfterFailure u Ts ↔ ∀ before T after, Ts = before ++ T :: after →
      ¬ H.IsBaseOf T p.object.cls → Upward H (T :: after) := by
  unfold NoSearchAfterFailure
  rw [hu]
  simp

/-- A target that the complete object has leaves the condition to the later ones. -/
theorem noSearchAfterFailure_cons {u : ClassPtr H U} {v : ClassPtr H T} {p q : ObjectRef H}
    (hu : u.target = some p) (hv : v.target = some q) (hobject : q.object = p.object)
    (hbase : H.IsBaseOf T p.object.cls) :
    NoSearchAfterFailure u (T :: Ts) ↔ NoSearchAfterFailure v Ts := by
  rw [noSearchAfterFailure_object hu, noSearchAfterFailure_object hv, hobject]
  constructor
  · intro h before T' after hsplit
    exact h (T :: before) T' after (by rw [hsplit, List.cons_append])
  · intro h before T' after hsplit hT'
    cases before with
    | nil =>
      cases hsplit
      exact absurd hbase hT'
    | cons T'' before =>
      cases hsplit
      exact h before T' after rfl hT'

/-- After a target that the complete object lacks every step must be upward. -/
theorem noSearchAfterFailure_cons_of_not {u : ClassPtr H U} {p : ObjectRef H}
    (hu : u.target = some p) (hbase : ¬ H.IsBaseOf T p.object.cls) :
    NoSearchAfterFailure u (T :: Ts) ↔ Upward H (T :: Ts) := by
  rw [noSearchAfterFailure_object hu]
  constructor
  · intro h
    exact h [] T Ts rfl hbase
  · intro h before T' after hsplit _
    unfold Upward at h ⊢
    rw [hsplit] at h
    exact h.right_of_append

/-! ## Results of casts of shared pointers -/

/-- The shared pointer for the result of a cast: empty for a null pointer. -/
def sharedResult (owner : Option ℕ) (v : ClassPtr H T) : SharedPtr H T :=
  if v.target.isSome then ⟨owner, v⟩ else .empty H T

/-- A cast of a shared pointer is empty exactly when the pointer is null. -/
theorem sharedResult_eq_empty (owner : Option ℕ) (v : ClassPtr H T) :
    sharedResult owner v = .empty H T ↔ v.target = none := by
  unfold sharedResult
  cases hv : v.target with
  | none => simp
  | some q =>
    refine iff_of_false (fun h => ?_) (by simp)
    have hstored := congrArg (fun s => s.stored.target) h
    change v.target = none at hstored
    rw [hv] at hstored
    cases hstored

end Conditions

namespace RuntimeClasses

variable {Class Index : Type*} [DecidableEq Class] {H : Hierarchy Class}
  {R : RuntimeClasses H Index} {U T : Class} {u : ClassPtr H U} {Ts : List Class}

/-! ## One cast -/

/-- An upward cast of a null pointer is null. -/
theorem upcast_null (hu : u.target = none) : (u.upcast T).target = none := by
  change u.target.bind _ = none
  rw [hu]
  rfl

/-- Any other cast of a null pointer is undefined. -/
theorem runtimePointerCast_null (R : RuntimeClasses H Index) (hu : u.target = none)
    (hbase : ¬ H.IsBaseOf T U) : R.runtimePointerCast T u = .error .nullCall := by
  unfold runtimePointerCast
  rw [Bool.eq_false_iff.mpr fun h => hbase (isBaseOf_plain.mp h)]
  unfold runtimeCastImpl
  rw [hu]

/-- A cast of a null pointer is defined when it is upward, and is null then. -/
theorem runtimePointerCast_null_eq_ok {v : ClassPtr H T} (hu : u.target = none)
    (h : R.runtimePointerCast T u = .ok v) : H.IsBaseOf T U ∧ v.target = none := by
  by_cases hbase : H.IsBaseOf T U
  · obtain ⟨-, rfl⟩ := (R.runtimePointerCast_eq_ok_iff hbase).mp h
    exact ⟨hbase, upcast_null hu⟩
  · rw [R.runtimePointerCast_null hu hbase] at h
    cases h

/-- A cast of a pointer to an object is defined. It fails for classes that the complete
object does not have, and otherwise designates a subobject of the class. -/
theorem runtimePointerCast_object (R : RuntimeClasses H Index) {p : ObjectRef H}
    (hu : u.target = some p) (hcompiles : H.IsBaseOf T U → H.UnambiguousBase T U) :
    ∃ v, R.runtimePointerCast T u = .ok v ∧
      (v.target = none ↔ ¬ H.IsBaseOf T p.object.cls) ∧
      ∀ q, v.target = some q → ObjectRef.Target T p q := by
  obtain rfl : p.cls = U := u.cls_eq p hu
  obtain rfl : u = p.toPtr rfl := ClassPtr.ext hu
  by_cases hbase : H.IsBaseOf T p.cls
  · have hunambiguous := hcompiles hbase
    obtain ⟨t, ⟨ht, htcls⟩, -⟩ := Hierarchy.unambiguousBase_iff.mp hunambiguous
    have hupcast : p.upcast T = some (p.inner t ht) := ObjectRef.upcast_eq_some_iff.mpr
      ⟨rfl, (Hierarchy.upcast_eq_some hunambiguous).mpr ⟨ht, htcls⟩⟩
    have htarget : ((p.toPtr rfl).upcast T).target = some (p.inner t ht) := hupcast
    refine ⟨_, (R.runtimePointerCast_eq_ok_iff hbase).mpr ⟨hunambiguous, rfl⟩, ?_,
      fun q hq => ?_⟩
    · rw [htarget]
      exact iff_of_false (by simp) (not_not_intro (p.inside.isBaseOf.trans hbase))
    · cases htarget.symm.trans hq
      exact ⟨rfl, htcls⟩
  · obtain ⟨v, hv, htarget⟩ := R.runtimePointerCast_search hbase
    refine ⟨v, hv, ?_, fun q hq => ?_⟩
    · rw [htarget, R.callFindInstance_eq_none_iff]
    · rw [htarget] at hq
      exact target_of_callFindInstance hq

/-- A cast to a class of the complete object ends at an object. -/
theorem exists_runtimePointerCast (R : RuntimeClasses H Index) {p : ObjectRef H}
    (hu : u.target = some p) (hcompiles : H.IsBaseOf T U → H.UnambiguousBase T U)
    (hT : H.IsBaseOf T p.object.cls) :
    ∃ v q, R.runtimePointerCast T u = .ok v ∧ v.target = some q ∧ q.object = p.object := by
  obtain ⟨v, hv, hnone, htarget⟩ := R.runtimePointerCast_object hu hcompiles
  cases hq : v.target with
  | none => exact absurd hT (hnone.mp hq)
  | some q => exact ⟨v, q, hv, hq, (htarget q hq).1⟩

/-! ## A chain of casts -/

/-- A chain that starts at a null pointer is null where it is defined. -/
theorem castChain_null {w : Σ c, ClassPtr H c} (hu : u.target = none)
    (h : castChain R.runtimePointerCast ⟨U, u⟩ Ts = .ok w) : w.2.target = none := by
  induction Ts generalizing U with
  | nil =>
    cases h
    exact hu
  | cons T Ts ih =>
    obtain ⟨v, hv, hchain⟩ := castChain_cons_eq_ok.mp h
    exact ih (runtimePointerCast_null_eq_ok hu hv).2 hchain

/-- A chain that starts at a null pointer is defined when every step is upward. -/
theorem castChain_null_defined_iff (hu : u.target = none) (hcompiles : ChainCompiles H U Ts) :
    (∃ w, castChain R.runtimePointerCast ⟨U, u⟩ Ts = .ok w) ↔ Upward H (U :: Ts) := by
  induction Ts generalizing U with
  | nil => exact iff_of_true ⟨_, rfl⟩ (List.isChain_singleton U)
  | cons T Ts ih =>
    obtain ⟨hstep, hrest⟩ := List.isChain_cons_cons.mp hcompiles
    unfold Upward
    rw [List.isChain_cons_cons]
    constructor
    · rintro ⟨w, hw⟩
      obtain ⟨v, hv, hchain⟩ := castChain_cons_eq_ok.mp hw
      obtain ⟨hbase, hnull⟩ := runtimePointerCast_null_eq_ok hu hv
      exact ⟨hbase, (ih hnull hrest).mp ⟨w, hchain⟩⟩
    · rintro ⟨hbase, hupward⟩
      have hcast : R.runtimePointerCast T u = .ok (u.upcast T) :=
        (R.runtimePointerCast_eq_ok_iff hbase).mpr ⟨hstep hbase, rfl⟩
      obtain ⟨w, hw⟩ := (ih (upcast_null hu) hrest).mpr hupward
      exact ⟨w, castChain_cons_eq_ok.mpr ⟨_, hcast, hw⟩⟩

/-- A chain of casts is defined exactly when no search follows a failure. -/
theorem castChain_defined_iff (R : RuntimeClasses H Index) (u : ClassPtr H U)
    (hcompiles : ChainCompiles H U Ts) :
    (∃ w, castChain R.runtimePointerCast ⟨U, u⟩ Ts = .ok w) ↔ NoSearchAfterFailure u Ts := by
  induction Ts generalizing U with
  | nil =>
    refine iff_of_true ⟨_, rfl⟩ ⟨fun _ => List.isChain_singleton U, fun p _ before T after h => ?_⟩
    exact absurd h (by simp)
  | cons T Ts ih =>
    obtain ⟨hstep, hrest⟩ := List.isChain_cons_cons.mp hcompiles
    cases hu : u.target with
    | none => rw [castChain_null_defined_iff hu hcompiles, noSearchAfterFailure_null hu]
    | some p =>
      obtain ⟨v, hcast, hnone, htarget⟩ := R.runtimePointerCast_object hu hstep
      have hdefined : (∃ w, castChain R.runtimePointerCast ⟨U, u⟩ (T :: Ts) = .ok w) ↔
          ∃ w, castChain R.runtimePointerCast ⟨T, v⟩ Ts = .ok w := by
        rw [castChain_cons, hcast]
        rfl
      rw [hdefined]
      cases hv : v.target with
      | none =>
        rw [castChain_null_defined_iff hv hrest,
          noSearchAfterFailure_cons_of_not hu (hnone.mp hv)]
      | some q =>
        have hbase : H.IsBaseOf T p.object.cls := by
          by_contra hnot
          rw [hnone.mpr hnot] at hv
          cases hv
        rw [noSearchAfterFailure_cons hu hv (htarget q hv).1 hbase]
        exact ih v hrest

/-! ## What a chain designates -/

/-- A chain stays in the complete object of its start. -/
theorem castChain_object {w : Σ c, ClassPtr H c} {p q : ObjectRef H} (hu : u.target = some p)
    (h : castChain R.runtimePointerCast ⟨U, u⟩ Ts = .ok w) (hq : w.2.target = some q) :
    q.object = p.object := by
  induction Ts generalizing U p with
  | nil =>
    cases h
    cases hu.symm.trans hq
    rfl
  | cons T Ts ih =>
    obtain ⟨v, hv, hchain⟩ := castChain_cons_eq_ok.mp h
    obtain ⟨v', hv', -, htarget⟩ := R.runtimePointerCast_object hu fun hbase =>
      ((R.runtimePointerCast_eq_ok_iff hbase).mp hv).1
    cases hv.symm.trans hv'
    cases hp : v.target with
    | none =>
      have hnull := castChain_null hp hchain
      rw [hq] at hnull
      cases hnull
    | some p' => exact (ih hp hchain).trans (htarget p' hp).1

/-- Each class of a chain has exactly one subobject in the complete object. -/
def UniqueTargets {U : Class} (u : ClassPtr H U) (Ts : List Class) : Prop :=
  ∀ p, u.target = some p → ∀ T ∈ Ts, ∃! t, ObjectRef.Target T p t

/-- A class with only one subobject in the complete object is no ambiguous base. -/
theorem unambiguousBase_of_unique_target {p : ObjectRef H} (h : ∃! t, ObjectRef.Target T p t)
    (hbase : H.IsBaseOf T p.cls) : H.UnambiguousBase T p.cls := by
  obtain ⟨t, ht, htcls⟩ := Hierarchy.IsBaseOf.exists_contains hbase
  refine Hierarchy.unambiguousBase_iff.mpr ⟨t, ⟨ht, htcls⟩, ?_⟩
  rintro t' ⟨ht', htcls'⟩
  have hsame : p.inner t' ht' = p.inner t ht := h.unique ⟨rfl, htcls'⟩ ⟨rfl, htcls⟩
  exact congrArg ObjectRef.subobject hsame

/-- A chain that ends at an object ends where its last cast alone does, when the last
class has a unique subobject. -/
theorem castChain_eq_last {p q : ObjectRef H} {w : Σ c, ClassPtr H c} {front : List Class}
    (hu : u.target = some p) (h : castChain R.runtimePointerCast ⟨U, u⟩ (front ++ [T]) = .ok w)
    (hq : w.2.target = some q) (hunique : ∃! t, ObjectRef.Target T p t) :
    castChain R.runtimePointerCast ⟨U, u⟩ [T] = .ok w := by
  have hobject := castChain_object hu h hq
  obtain ⟨x, rfl⟩ : ∃ x : ClassPtr H T, w = ⟨T, x⟩ := by
    rw [castChain_append] at h
    cases hfront : castChain R.runtimePointerCast ⟨U, u⟩ front with
    | error e =>
      rw [hfront] at h
      cases h
    | ok v =>
      rw [hfront] at h
      obtain ⟨x, -, hx⟩ := castChain_cons_eq_ok.mp h
      exact ⟨x, (Except.ok.inj hx).symm⟩
  have htarget : ObjectRef.Target T p q := ⟨hobject, x.cls_eq q hq⟩
  have hcompiles : H.IsBaseOf T U → H.UnambiguousBase T U := by
    obtain rfl : p.cls = U := u.cls_eq p hu
    exact unambiguousBase_of_unique_target hunique
  obtain ⟨v, hv, hnone, hsome⟩ := R.runtimePointerCast_object hu hcompiles
  have hbase : H.IsBaseOf T p.object.cls := by
    rw [← htarget.1, ← htarget.2]
    exact q.inside.isBaseOf
  have hvx : v = x := by
    apply ClassPtr.ext
    cases hvt : v.target with
    | none => exact absurd hbase (hnone.mp hvt)
    | some q' => rw [hq, hunique.unique (hsome q' hvt) htarget]
  rw [castChain_cons, hv, hvx]
  rfl

/-- Where a chain of pointer casts is defined, failure reaches its end. -/
theorem propagatesFailure_of_defined
    (h : ∃ w, castChain R.runtimePointerCast ⟨U, u⟩ Ts = .ok w) :
    PropagatesFailure R.runtimePointerCast (fun v => v.target = none) (UniqueTargets u Ts)
      ⟨U, u⟩ Ts := by
  obtain ⟨w, hw⟩ := h
  refine ⟨⟨w, hw⟩, ?_, ?_⟩
  · rintro before later v - ⟨rest, rfl⟩ hbefore hfailed
    rw [castChain_append, castChain_append, hbefore] at hw
    rw [castChain_append, hbefore]
    change (castChain _ v later).bind _ = _ at hw
    change ∃ w, castChain _ v later = .ok w ∧ _
    cases hlater : castChain R.runtimePointerCast v later with
    | error e =>
      rw [hlater] at hw
      cases hw
    | ok w' => exact ⟨w', rfl, castChain_null hfailed hlater⟩
  · intro hunique hsucceeds T hT
    obtain ⟨front, rfl⟩ := List.getLast?_eq_some_iff.mp hT
    have hlast := hsucceeds _ w (by simp) (List.prefix_refl _) hw
    cases hu : u.target with
    | none => exact absurd (castChain_null hu hw) hlast
    | some p =>
      cases hq : w.2.target with
      | none => exact absurd hq hlast
      | some q => rw [hw, castChain_eq_last hu hw hq (hunique p hu T (by simp))]

/-! ## Shared pointers -/

/-- The cast of a shared pointer casts the stored pointer. -/
theorem sharedPointerCast_eq (T : Class) (u : SharedPtr H U) :
    R.sharedPointerCast T u = sharedResult u.owner <$> R.runtimePointerCast T u.stored := by
  unfold sharedPointerCast runtimePointerCast
  cases R.runtimeCastImpl T u.stored (CastArgument.isBaseOf H (.plain T) (.plain U)) <;> rfl

/-- Casting the result of a cast again casts its pointer again. -/
theorem sharedPointerCast_sharedResult (owner : Option ℕ) (T : Class) (v : ClassPtr H U) :
    R.sharedPointerCast T (sharedResult owner v) =
      sharedResult owner <$> R.runtimePointerCast T v := by
  rw [sharedPointerCast_eq]
  cases hv : v.target with
  | some q =>
    have hresult : sharedResult owner v = ⟨owner, v⟩ := by
      unfold sharedResult
      rw [hv]
      rfl
    rw [hresult]
  | none =>
    have hresult : sharedResult owner v = .empty H U := (sharedResult_eq_empty owner v).mpr hv
    have hstored : (SharedPtr.empty H U).stored = v := ClassPtr.ext hv.symm
    rw [hresult, hstored]
    cases hcast : R.runtimePointerCast T v with
    | error e => rfl
    | ok w =>
      have hw := (runtimePointerCast_null_eq_ok hv hcast).2
      change Except.ok (sharedResult _ w) = Except.ok (sharedResult _ w)
      rw [(sharedResult_eq_empty _ w).mpr hw, (sharedResult_eq_empty _ w).mpr hw]

/-- A chain of casts of shared pointers follows the chain of its stored pointers. -/
theorem castChain_shared (owner : Option ℕ) (hTs : Ts ≠ []) :
    castChain R.sharedPointerCast ⟨U, ⟨owner, u⟩⟩ Ts =
      (fun w => ⟨w.1, sharedResult owner w.2⟩) <$> castChain R.runtimePointerCast ⟨U, u⟩ Ts := by
  obtain ⟨T, rest, rfl⟩ := List.exists_cons_of_ne_nil hTs
  rw [castChain_cons, castChain_cons, sharedPointerCast_eq]
  cases R.runtimePointerCast T u with
  | error e => rfl
  | ok v => exact castChain_map (u := ⟨T, v⟩) (sharedPointerCast_sharedResult owner) rest

/-! ## All forms -/

/-- Failure propagates through a chain of casts of pointers and of shared pointers. -/
structure ChainsPropagate (R : RuntimeClasses H Index) (u : ClassPtr H U) (Ts : List Class) :
    Prop where
  /-- `runtime_pointer_cast` on pointers, where a failed cast is null. -/
  pointer : PropagatesFailure R.runtimePointerCast (fun v => v.target = none)
    (UniqueTargets u Ts) ⟨U, u⟩ Ts
  /-- `runtime_pointer_cast` on `std::shared_ptr`, where a failed cast is empty. -/
  std : ∀ owner, PropagatesFailure R.stdRuntimePointerCast (fun v => v = .empty H _)
    (UniqueTargets u Ts) ⟨U, ⟨owner, u⟩⟩ Ts
  /-- `runtime_pointer_cast` on `boost::shared_ptr`. -/
  boost : ∀ owner, PropagatesFailure R.boostRuntimePointerCast (fun v => v = .empty H _)
    (UniqueTargets u Ts) ⟨U, ⟨owner, u⟩⟩ Ts

/-- Failure propagates through a chain of casts, of pointers as of shared pointers,
exactly when no search follows the first failure. -/
theorem chainsPropagate_iff (R : RuntimeClasses H Index) (u : ClassPtr H U) (Ts : List Class)
    (hcompiles : ChainCompiles H U Ts) :
    R.ChainsPropagate u Ts ↔ NoSearchAfterFailure u Ts := by
  rw [← R.castChain_defined_iff u hcompiles]
  constructor
  · intro h
    exact h.pointer.defined
  · intro hdefined
    have hpointer := propagatesFailure_of_defined hdefined
    have hshared : ∀ owner, PropagatesFailure R.sharedPointerCast (fun v => v = .empty H _)
        (UniqueTargets u Ts) ⟨U, ⟨owner, u⟩⟩ Ts := fun owner =>
      hpointer.map (fun _ => castChain_shared owner) (sharedResult_eq_empty owner)
    exact ⟨hpointer, hshared, hshared⟩

end RuntimeClasses

/-! ## A search after a failure -/

/-- A pointer to an object of class `base`. -/
def basePointer : ClassPtr repeatedHierarchy .base :=
  ObjectRef.toPtr ⟨⟨0, .base⟩, .complete .base, .refl _⟩ rfl

/-- The casts from `base` to `derived` and on to `left` go downward. -/
theorem chainCompiles_base : ChainCompiles repeatedHierarchy .base [.derived, .left] :=
  .cons_cons (fun h => absurd h.declared_le (by decide))
    (.cons_cons (fun h => absurd h.declared_le (by decide)) (.singleton _))

/-- The condition for casts to `derived` and on to `left`. -/
theorem chainsPropagate_iff_base :
    repeatedClasses.ChainsPropagate basePointer [.derived, .left] ↔
      NoSearchAfterFailure basePointer [.derived, .left] :=
  repeatedClasses.chainsPropagate_iff basePointer [.derived, .left] chainCompiles_base

/-- The cast to `derived` fails, and the cast of its result to `left` is undefined. -/
theorem not_chainsPropagate_base :
    ChainCompiles repeatedHierarchy .base [.derived, .left] ∧
      castChain repeatedClasses.runtimePointerCast ⟨.base, basePointer⟩ [.derived, .left] =
        .error .nullCall ∧
      ¬ repeatedClasses.ChainsPropagate basePointer [.derived, .left] := by
  have hderived : ¬ repeatedHierarchy.IsBaseOf .derived .base := fun h =>
    absurd h.declared_le (by decide)
  have hleft : ¬ repeatedHierarchy.IsBaseOf .left .derived := fun h =>
    absurd h.declared_le (by decide)
  obtain ⟨v, hv, hnone, -⟩ := repeatedClasses.runtimePointerCast_object (u := basePointer) rfl
    fun h => absurd h hderived
  have hundefined : castChain repeatedClasses.runtimePointerCast ⟨.base, basePointer⟩
      [.derived, .left] = .error .nullCall := by
    rw [castChain_cons, hv]
    change castChain _ ⟨_, v⟩ [_] = _
    rw [castChain_cons, repeatedClasses.runtimePointerCast_null (hnone.mpr hderived) hleft]
    rfl
  refine ⟨chainCompiles_base, hundefined, fun h => ?_⟩
  obtain ⟨w, hw⟩ := h.pointer.defined
  rw [hundefined] at hw
  cases hw

end TypeIndex
