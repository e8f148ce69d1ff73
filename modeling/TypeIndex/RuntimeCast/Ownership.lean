import TypeIndex.RuntimeCast.Chains
import TypeIndex.SharedOwnership

/-!
# Ownership through casts

A cast of a shared pointer shares its ownership when it succeeds and gives an empty
pointer when it fails. Whatever a program does with its pointers, an object is there
exactly while a pointer designates it or a part of it.
-/

namespace TypeIndex

open CxxObject SharedOwnership

universe u

/-- Two steps succeed when the first does, and the second on its result. -/
theorem bind_eq_ok {ε : Type*} {α β : Type u} {x : Except ε α} {f : α → Except ε β} {b : β} :
    x >>= f = .ok b ↔ ∃ a, x = .ok a ∧ f a = .ok b := by
  cases x with
  | error e => simp [bind, Except.bind]
  | ok a => simp [bind, Except.bind]

/-- A variable of a type `shared_ptr<c>`. -/
abbrev SharedVar {Class : Type*} (H : Hierarchy Class) := Σ c, SharedPtr H c

namespace SharedVar

variable {Class : Type*} {H : Hierarchy Class}

/-- The control block that a variable owns. -/
def owner (v : SharedVar H) : Option ℕ := v.2.owner

/-- The object that a variable designates. -/
def target (v : SharedVar H) : Option (ObjectRef H) := v.2.stored.target

/-- A variable that is declared. -/
def named (vars : List (SharedVar H)) (i : ℕ) : Except CastError (SharedVar H) :=
  match vars[i]? with
  | some v => .ok v
  | none => .error .illFormed

/-- A name has a variable when there is one at its place. -/
theorem named_eq_ok {vars : List (SharedVar H)} {i : ℕ} {v : SharedVar H} :
    named vars i = .ok v ↔ vars[i]? = some v := by
  unfold named
  cases vars[i]? <;> simp

end SharedVar

/-- `std::make_shared<c>()`, which has one address for the object and its control block. -/
def SharedPtr.make {Class : Type*} (H : Hierarchy Class) (c : Class) (address : ℕ) :
    SharedPtr H c :=
  ⟨some address, ObjectRef.toPtr ⟨⟨address, c⟩, .complete c, .refl _⟩ rfl⟩

/-- An expression for a shared pointer. -/
inductive SharedExpr (Class : Type*)
  /-- A variable, counted from the newest. -/
  | var (i : ℕ)
  /-- `runtime_pointer_cast<T>(e)`. -/
  | cast (T : Class) (e : SharedExpr Class)

/-- A statement about shared pointers. -/
inductive SharedStmt (Class : Type*)
  /-- `auto v = std::make_shared<c>();` -/
  | make (c : Class)
  /-- `auto v = e;` -/
  | declare (e : SharedExpr Class)
  /-- `v = e;`, for a variable of the same type. -/
  | assign (i : ℕ) (e : SharedExpr Class)
  /-- `v.reset();` -/
  | reset (i : ℕ)
  /-- The end of the scope of the newest variable. -/
  | leave

namespace RuntimeClasses

variable {Class Index : Type*} [DecidableEq Class] {H : Hierarchy Class}
  (R : RuntimeClasses H Index)

/-- The value of an expression. -/
def evalShared (vars : List (SharedVar H)) : SharedExpr Class → Except CastError (SharedVar H)
  | .var i => SharedVar.named vars i
  | .cast T e => do
    let v ← evalShared vars e
    let w ← R.sharedPointerCast T v.2
    return ⟨T, w⟩

/-- What a statement does to the variables. -/
def sharedCommand (vars : List (SharedVar H)) :
    SharedStmt Class → Except CastError (Command (SharedVar H))
  | .make c => .ok (.make fun address => ⟨c, .make H c address⟩)
  | .declare e => do return .push (← R.evalShared vars e)
  | .assign i e => do
    let old ← SharedVar.named vars i
    let v ← R.evalShared vars e
    if v.1 = old.1 then .ok (.assign i v) else .error .illFormed
  | .reset i => do
    let old ← SharedVar.named vars i
    return .assign i ⟨old.1, .empty H old.1⟩
  | .leave => .ok .pop

/-- The effect of a statement. -/
def sharedStep (s : Store (SharedVar H)) (stmt : SharedStmt Class) :
    Except CastError (Store (SharedVar H)) := do
  let c ← R.sharedCommand s.handles stmt
  match s.step SharedVar.owner c with
  | some s' => .ok s'
  | none => .error .illFormed

/-- The effect of a program. -/
def sharedRun (s : Store (SharedVar H)) : List (SharedStmt Class) →
    Except CastError (Store (SharedVar H))
  | [] => .ok s
  | stmt :: program => do sharedRun (← R.sharedStep s stmt) program

end RuntimeClasses

/-! ## The invariant -/

/-- A pointer that owns the block of the object it designates, which some variable
designates as well, or that is empty. -/
structure SharedVar.Derived {Class : Type*} {H : Hierarchy Class} (vars : List (SharedVar H))
    (v : SharedVar H) : Prop where
  /-- The pointer owns the object that it designates, and nothing when it is null. -/
  owner_eq : v.owner = v.target.map (·.object.address)
  /-- Its object is one that a variable designates. -/
  exists_target : ∀ p, v.target = some p → ∃ w ∈ vars, ∃ q, w.target = some q ∧ q.object = p.object

/-- An empty pointer is derived from any variables. -/
theorem SharedVar.derived_empty {Class : Type*} {H : Hierarchy Class} (vars : List (SharedVar H))
    (c : Class) : SharedVar.Derived vars ⟨c, .empty H c⟩ :=
  ⟨rfl, fun _ hp => nomatch hp⟩

/-- Variables own what they designate, and one address belongs to one object. -/
structure SharedSound {Class : Type*} {H : Hierarchy Class} (s : Store (SharedVar H)) : Prop where
  /-- Blocks count the variables. -/
  counted : s.Counted SharedVar.owner
  /-- A variable owns the object that it designates, and nothing when it is null. -/
  owner_eq : ∀ v ∈ s.handles, v.owner = v.target.map (·.object.address)
  /-- Variables that designate objects at one address designate one object. -/
  object_eq : ∀ v ∈ s.handles, ∀ w ∈ s.handles, ∀ p q, v.target = some p → w.target = some q →
    p.object.address = q.object.address → p.object = q.object

namespace SharedSound

variable {Class : Type*} {H : Hierarchy Class} {s s' : Store (SharedVar H)}

/-- The empty store is sound. -/
theorem empty : SharedSound (.empty : Store (SharedVar H)) where
  counted := Store.counted_empty
  owner_eq _ h := nomatch h
  object_eq _ h := nomatch h

/-- A derived pointer owns a block that is there. -/
theorem admits (h : SharedSound s) {v : SharedVar H} (hv : v.Derived s.handles) {b : ℕ}
    (howner : v.owner = some b) : s.alive b = true := by
  rw [hv.owner_eq, Option.map_eq_some_iff] at howner
  obtain ⟨p, hp, rfl⟩ := howner
  obtain ⟨w, hw, q, hq, hobject⟩ := hv.exists_target p hp
  refine (h.counted.alive_iff_exists _).mpr ⟨w, hw, ?_⟩
  rw [h.owner_eq w hw, hq, Option.map_some, hobject]

/-- Blocks stay sound when every variable is an old one or derived. -/
theorem of_mem (h : SharedSound s) (hcounted : s'.Counted SharedVar.owner)
    (hmem : ∀ v ∈ s'.handles, v ∈ s.handles ∨ v.Derived s.handles) : SharedSound s' := by
  have hderived : ∀ v ∈ s'.handles, v.Derived s.handles := fun v hv =>
    (hmem v hv).elim (fun hold => ⟨h.owner_eq v hold, fun p hp => ⟨v, hold, p, hp, rfl⟩⟩) id
  refine ⟨hcounted, fun v hv => (hderived v hv).owner_eq, fun v hv w hw p q hp hq haddress => ?_⟩
  obtain ⟨v', hv', p', hp', hobject⟩ := (hderived v hv).exists_target p hp
  obtain ⟨w', hw', q', hq', hobject'⟩ := (hderived w hw).exists_target q hq
  rw [← hobject, ← hobject'] at haddress ⊢
  exact h.object_eq v' hv' w' hw' p' q' hp' hq' haddress

/-- A new object has an address of its own. -/
theorem make (h : SharedSound s) {c : Class}
    (hstep : s.step SharedVar.owner (.make fun address => ⟨c, .make H c address⟩) = some s') :
    SharedSound s' := by
  have hadmits : s.Admits SharedVar.owner (.make fun address => ⟨c, .make H c address⟩) := rfl
  have hcounted := h.counted.step hadmits hstep
  have hfresh : ∀ v ∈ s.handles, ∀ p, v.target = some p → p.object.address ≠ s.created := by
    intro v hv p hp haddress
    have howner : v.owner = some s.created := by
      rw [h.owner_eq v hv, hp, Option.map_some, haddress]
    exact Nat.lt_irrefl _ (h.counted.lt_of_owner hv howner)
  have hnew : ∀ p, SharedVar.target ⟨c, .make H c s.created⟩ = some p →
      p.object = ⟨s.created, c⟩ := by
    rintro p hp
    cases hp
    rfl
  cases hstep
  refine ⟨hcounted, fun v hv => ?_, fun v hv w hw p q hp hq haddress => ?_⟩
  · rcases List.mem_cons.mp hv with rfl | hv
    · rfl
    · exact h.owner_eq v hv
  · rcases List.mem_cons.mp hv with rfl | hv <;> rcases List.mem_cons.mp hw with rfl | hw
    · exact (hnew p hp).trans (hnew q hq).symm
    · rw [hnew p hp] at haddress
      exact absurd haddress.symm (hfresh w hw q hq)
    · rw [hnew q hq] at haddress
      exact absurd haddress (hfresh v hv p hp)
    · exact h.object_eq v hv w hw p q hp hq haddress

/-- A new variable with a derived pointer. -/
theorem push (h : SharedSound s) {v : SharedVar H} (hv : v.Derived s.handles)
    (hstep : s.step SharedVar.owner (.push v) = some s') : SharedSound s' := by
  have hadmits : s.Admits SharedVar.owner (.push v) := fun b => h.admits hv
  refine h.of_mem (h.counted.step hadmits hstep) fun w hw => ?_
  cases hstep
  rcases List.mem_cons.mp hw with rfl | hold
  · exact Or.inr hv
  · exact Or.inl hold

/-- A derived pointer in a variable. -/
theorem assign (h : SharedSound s) {i : ℕ} {v : SharedVar H} (hv : v.Derived s.handles)
    (hstep : s.step SharedVar.owner (.assign i v) = some s') : SharedSound s' := by
  have hadmits : s.Admits SharedVar.owner (.assign i v) := fun b => h.admits hv
  refine h.of_mem (h.counted.step hadmits hstep) fun w hw => ?_
  obtain ⟨old, -, rfl⟩ := Option.map_eq_some_iff.mp hstep
  rw [Store.release_handles] at hw
  rcases List.mem_or_eq_of_mem_set hw with hold | rfl
  · exact Or.inl hold
  · exact Or.inr hv

/-- The newest variable is gone. -/
theorem pop (h : SharedSound s) (hstep : s.step SharedVar.owner .pop = some s') :
    SharedSound s' := by
  have hadmits : s.Admits SharedVar.owner .pop := trivial
  refine h.of_mem (h.counted.step hadmits hstep) fun w hw => Or.inl ?_
  obtain ⟨old, rest, hhandles, rfl⟩ := Store.step_pop_eq_some hstep
  rw [Store.release_handles] at hw
  rw [hhandles]
  exact List.mem_cons_of_mem _ hw

end SharedSound

/-! ## Programs -/

namespace RuntimeClasses

variable {Class Index : Type*} [DecidableEq Class] {H : Hierarchy Class}
  {R : RuntimeClasses H Index} {vars : List (SharedVar H)} {s s' : Store (SharedVar H)}

/-- A cast that is defined gives a null pointer or stays in the complete object. -/
theorem runtimePointerCast_stays {U T : Class} {u : ClassPtr H U} {v : ClassPtr H T}
    {q : ObjectRef H} (h : R.runtimePointerCast T u = .ok v) (hq : v.target = some q) :
    ∃ p, u.target = some p ∧ q.object = p.object := by
  cases hu : u.target with
  | none =>
    rw [(runtimePointerCast_null_eq_ok hu h).2] at hq
    cases hq
  | some p =>
    obtain ⟨v', hv', -, htarget⟩ := R.runtimePointerCast_object hu fun hbase =>
      ((R.runtimePointerCast_eq_ok_iff hbase).mp h).1
    cases h.symm.trans hv'
    exact ⟨p, rfl, (htarget q hq).1⟩

/-- A cast of a shared pointer keeps what its source has, or gives an empty pointer. -/
theorem derived_sharedPointerCast {U T : Class} {u : SharedPtr H U} {w : SharedPtr H T}
    (hu : SharedVar.Derived vars ⟨U, u⟩) (h : R.sharedPointerCast T u = .ok w) :
    SharedVar.Derived vars ⟨T, w⟩ := by
  rw [sharedPointerCast_eq] at h
  cases hcast : R.runtimePointerCast T u.stored with
  | error e =>
    rw [hcast] at h
    cases h
  | ok v =>
    rw [hcast] at h
    cases h
    unfold sharedResult
    cases hv : v.target with
    | none => exact ⟨rfl, fun p hp => nomatch hp⟩
    | some q =>
      obtain ⟨p, hp, hobject⟩ := runtimePointerCast_stays hcast hv
      constructor
      · have howner : u.owner = some p.object.address := by
          have hsource := hu.owner_eq
          rwa [SharedVar.target, hp] at hsource
        change u.owner = v.target.map _
        rw [howner, hv, Option.map_some, hobject]
      · intro q' hq'
        cases hv.symm.trans hq'
        rw [hobject]
        exact hu.exists_target p hp

/-- The value of an expression owns what it designates, and designates what a variable
does, or nothing. -/
theorem derived_evalShared (howner : ∀ v ∈ vars, v.owner = v.target.map (·.object.address))
    {e : SharedExpr Class} {v : SharedVar H} (h : R.evalShared vars e = .ok v) :
    SharedVar.Derived vars v := by
  induction e generalizing v with
  | var i =>
    have hmem := List.mem_of_getElem? (SharedVar.named_eq_ok.mp h)
    exact ⟨howner v hmem, fun p hp => ⟨v, hmem, p, hp, rfl⟩⟩
  | cast T e ih =>
    obtain ⟨u, hu, h⟩ := bind_eq_ok.mp h
    obtain ⟨w, hw, h⟩ := bind_eq_ok.mp h
    cases h
    exact derived_sharedPointerCast (ih hu) hw

/-- A statement that is defined is a command that the store admits. -/
theorem sharedStep_eq_ok {stmt : SharedStmt Class} (h : R.sharedStep s stmt = .ok s') :
    ∃ c, R.sharedCommand s.handles stmt = .ok c ∧ s.step SharedVar.owner c = some s' := by
  obtain ⟨c, hc, h⟩ := bind_eq_ok.mp h
  refine ⟨c, hc, ?_⟩
  cases hs : s.step SharedVar.owner c with
  | none =>
    simp only [hs] at h
    cases h
  | some t =>
    simp only [hs] at h
    cases h
    rfl

/-- A statement keeps variables sound. -/
theorem sharedSound_step (hs : SharedSound s) {stmt : SharedStmt Class}
    (h : R.sharedStep s stmt = .ok s') : SharedSound s' := by
  obtain ⟨c, hc, hstep⟩ := sharedStep_eq_ok h
  cases stmt with
  | make c =>
    cases hc
    exact hs.make hstep
  | declare e =>
    obtain ⟨v, hv, hc⟩ := bind_eq_ok.mp hc
    cases hc
    exact hs.push (derived_evalShared hs.owner_eq hv) hstep
  | assign i e =>
    obtain ⟨old, -, hc⟩ := bind_eq_ok.mp hc
    obtain ⟨v, hv, hc⟩ := bind_eq_ok.mp hc
    split_ifs at hc
    cases hc
    exact hs.assign (derived_evalShared hs.owner_eq hv) hstep
  | reset i =>
    obtain ⟨old, -, hc⟩ := bind_eq_ok.mp hc
    cases hc
    exact hs.assign (SharedVar.derived_empty _ old.1) hstep
  | leave =>
    cases hc
    exact hs.pop hstep

/-- A statement leaves the objects created so far alone, or destroys some. -/
theorem sharedStep_alive {stmt : SharedStmt Class} (h : R.sharedStep s stmt = .ok s') {b : ℕ}
    (hb : b < s.created) : b < s'.created ∧ (s'.alive b = true → s.alive b = true) := by
  obtain ⟨c, -, hstep⟩ := sharedStep_eq_ok h
  exact Store.step_alive hstep hb

/-- A program runs when its first statement does, and the others behind it. -/
theorem sharedRun_cons {stmt : SharedStmt Class} {program : List (SharedStmt Class)} :
    R.sharedRun s (stmt :: program) = .ok s' ↔
      ∃ t, R.sharedStep s stmt = .ok t ∧ R.sharedRun t program = .ok s' :=
  bind_eq_ok

/-- A program keeps variables sound. -/
theorem sharedSound_run (hs : SharedSound s) {program : List (SharedStmt Class)}
    (h : R.sharedRun s program = .ok s') : SharedSound s' := by
  induction program generalizing s with
  | nil =>
    cases h
    exact hs
  | cons stmt program ih =>
    obtain ⟨t, ht, h⟩ := sharedRun_cons.mp h
    exact ih (sharedSound_step hs ht) h

/-- A program brings no object back. -/
theorem sharedRun_alive {program : List (SharedStmt Class)} (h : R.sharedRun s program = .ok s')
    {b : ℕ} (hb : b < s.created) (halive : s'.alive b = true) : s.alive b = true := by
  induction program generalizing s with
  | nil =>
    cases h
    exact halive
  | cons stmt program ih =>
    obtain ⟨t, ht, h⟩ := sharedRun_cons.mp h
    obtain ⟨hlt, hback⟩ := sharedStep_alive ht hb
    exact hback (ih h hlt)

/-- Pointers that a program makes by casts neither dangle nor keep objects without a use:
after every run an object is there exactly while a variable designates it or a part of
it, its use count is the number of these variables, and variables at one address
designate one object. What the run has destroyed no variable designates ever again. -/
theorem sharedRun_owned (R : RuntimeClasses H Index) (program : List (SharedStmt Class))
    (h : R.sharedRun .empty program = .ok s) :
    (∀ b, s.alive b = true ↔
      ∃ v ∈ s.handles, ∃ p, v.target = some p ∧ p.object.address = b) ∧
    (∀ b, s.useCount b =
      s.handles.countP fun v => v.target.map (·.object.address) = some b) ∧
    (∀ v ∈ s.handles, ∀ w ∈ s.handles, ∀ p q, v.target = some p → w.target = some q →
      p.object.address = q.object.address → p.object = q.object) ∧
    ∀ rest s', R.sharedRun s rest = .ok s' → ∀ b < s.created, s.alive b = false →
      ∀ v ∈ s'.handles, ∀ p, v.target = some p → p.object.address ≠ b := by
  have halive : ∀ {t : Store (SharedVar H)}, SharedSound t → ∀ b, t.alive b = true ↔
      ∃ v ∈ t.handles, ∃ p, v.target = some p ∧ p.object.address = b := by
    intro t ht b
    rw [ht.counted.alive_iff_exists]
    refine exists_congr fun v => and_congr_right fun hv => ?_
    rw [ht.owner_eq v hv, Option.map_eq_some_iff]
  have hs := sharedSound_run SharedSound.empty h
  refine ⟨halive hs, fun b => ?_, hs.object_eq, fun rest s' hrest b hb hdead v hv p hp hp' => ?_⟩
  · rw [hs.counted.useCount_eq]
    refine List.countP_congr fun v hv => ?_
    rw [hs.owner_eq v hv]
  · have hback := sharedRun_alive hrest hb ((halive (sharedSound_run hs hrest) b).mpr
      ⟨v, hv, p, hp, hp'⟩)
    rw [hdead] at hback
    cases hback

end RuntimeClasses

/-! ### A cast that fails -/

/-- A `base` is cast to `derived` and its only pointer reset. -/
def failingProgram : List (SharedStmt RepeatedClass) :=
  [.make .base, .declare (.cast .derived (.var 0)), .reset 1]

/-- The cast to `derived` gives an empty pointer. -/
theorem sharedPointerCast_base (address : ℕ) :
    repeatedClasses.sharedPointerCast .derived (.make repeatedHierarchy .base address) =
      .ok (.empty _ _) := by
  have hbase : ¬ repeatedHierarchy.IsBaseOf .derived .base := fun h =>
    absurd h.declared_le (by decide)
  obtain ⟨v, hv, hnone, -⟩ := repeatedClasses.runtimePointerCast_object (T := .derived)
    (u := (SharedPtr.make repeatedHierarchy .base address).stored) rfl fun h => absurd h hbase
  rw [RuntimeClasses.sharedPointerCast_eq, hv]
  exact congrArg Except.ok ((sharedResult_eq_empty _ _).mpr (hnone.mpr hbase))

/-- The program runs to its end. -/
theorem exists_failingProgram :
    ∃ s, repeatedClasses.sharedRun .empty failingProgram = .ok s := by
  have hcast : repeatedClasses.evalShared [⟨.base, .make repeatedHierarchy .base 0⟩]
      (.cast .derived (.var 0)) = .ok ⟨.derived, .empty _ _⟩ :=
    bind_eq_ok.mpr ⟨_, rfl, bind_eq_ok.mpr ⟨_, sharedPointerCast_base 0, rfl⟩⟩
  have hdeclare : repeatedClasses.sharedCommand [⟨.base, .make repeatedHierarchy .base 0⟩]
      (.declare (.cast .derived (.var 0))) = .ok (.push ⟨.derived, .empty _ _⟩) :=
    bind_eq_ok.mpr ⟨_, hcast, rfl⟩
  exact ⟨_, RuntimeClasses.sharedRun_cons.mpr ⟨_, rfl, RuntimeClasses.sharedRun_cons.mpr
    ⟨_, bind_eq_ok.mpr ⟨_, hdeclare, rfl⟩, rfl⟩⟩⟩

/-- The pointer that the cast gives keeps no object. -/
theorem sharedRun_owned_failing :
    ∃ s, repeatedClasses.sharedRun .empty failingProgram = .ok s ∧
    (∀ b, s.alive b = true ↔
      ∃ v ∈ s.handles, ∃ p, v.target = some p ∧ p.object.address = b) ∧
    (∀ b, s.useCount b =
      s.handles.countP fun v => v.target.map (·.object.address) = some b) ∧
    (∀ v ∈ s.handles, ∀ w ∈ s.handles, ∀ p q, v.target = some p → w.target = some q →
      p.object.address = q.object.address → p.object = q.object) ∧
    ∀ rest s', repeatedClasses.sharedRun s rest = .ok s' →
      ∀ b < s.created, s.alive b = false → ∀ v ∈ s'.handles, ∀ p, v.target = some p →
        p.object.address ≠ b := by
  obtain ⟨s, hs⟩ := exists_failingProgram
  exact ⟨s, hs, repeatedClasses.sharedRun_owned failingProgram hs⟩

end TypeIndex
