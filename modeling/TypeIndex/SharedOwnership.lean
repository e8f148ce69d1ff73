import Mathlib.Data.List.Perm.Basic
import Mathlib.Logic.Function.Basic
import Mathlib.Tactic.Common

/-!
# Shared ownership

Several handles may own one block. The block counts them and is destroyed when the last
of them is gone. As long as new handles own nothing or a block that is there, use counts
are the numbers of owners, blocks are there exactly while a handle owns them, and no
block comes back.
-/

namespace SharedOwnership

/-- The handles of a program, and what is known of each block. -/
structure Store (Handle : Type*) where
  /-- The handles that there are, the newest first. -/
  handles : List Handle
  /-- The number of blocks created so far. -/
  created : ℕ
  /-- The use count of each block. -/
  useCount : ℕ → ℕ
  /-- Whether a block has been created and not destroyed. -/
  alive : ℕ → Bool

/-- What a program does with handles. -/
inductive Command (Handle : Type*)
  /-- A new block with its first handle. -/
  | make (handle : ℕ → Handle)
  /-- A new handle. -/
  | push (handle : Handle)
  /-- Another value for a handle. -/
  | assign (i : ℕ) (handle : Handle)
  /-- The end of the newest handle. -/
  | pop

namespace Store

variable {Handle : Type*} (owner : Handle → Option ℕ)

/-- No handles and no blocks. -/
def empty : Store Handle := ⟨[], 0, fun _ => 0, fun _ => false⟩

/-- The store with other handles. -/
def withHandles (s : Store Handle) (handles : List Handle) : Store Handle :=
  { s with handles := handles }

/-- A block, if any, has one more owner. -/
def acquire (s : Store Handle) : Option ℕ → Store Handle
  | none => s
  | some b => { s with useCount := Function.update s.useCount b (s.useCount b + 1) }

/-- A block, if any, has one owner less. The last owner destroys it. -/
def release (s : Store Handle) : Option ℕ → Store Handle
  | none => s
  | some b =>
    { s with
      useCount := Function.update s.useCount b (s.useCount b - 1)
      alive := if s.useCount b = 1 then Function.update s.alive b false else s.alive }

/-- A block without owners. -/
def create (s : Store Handle) : Store Handle :=
  { s with created := s.created + 1, alive := Function.update s.alive s.created true }

/-- The effect of a command. A new value is acquired before the old one is released. -/
def step (s : Store Handle) : Command Handle → Option (Store Handle)
  | .make handle =>
    let h := handle s.created
    some ((s.create.acquire (owner h)).withHandles (h :: s.handles))
  | .push h => some ((s.acquire (owner h)).withHandles (h :: s.handles))
  | .assign i h =>
    s.handles[i]?.map fun old =>
      ((s.acquire (owner h)).withHandles (s.handles.set i h)).release (owner old)
  | .pop =>
    match s.handles with
    | [] => none
    | old :: rest => some ((s.withHandles rest).release (owner old))

/-- What a command may ask for: a handle owns a block that is there, and a new block is
owned by its handle. -/
def Admits (s : Store Handle) : Command Handle → Prop
  | .make handle => owner (handle s.created) = some s.created
  | .push h | .assign _ h => ∀ b, owner h = some b → s.alive b = true
  | .pop => True

/-- Use counts are numbers of owners, and blocks are there while they have owners. -/
structure Counted (s : Store Handle) : Prop where
  /-- A block counts the handles that own it. -/
  useCount_eq : ∀ b, s.useCount b = s.handles.countP fun h => owner h = some b
  /-- A block is there while it has owners. -/
  alive_iff : ∀ b, s.alive b = true ↔ 0 < s.useCount b
  /-- Blocks that are there were created. -/
  lt_created : ∀ b, s.alive b = true → b < s.created

variable {owner} {s s' : Store Handle}

/-- The newest handle ends when there is one. -/
theorem step_pop_eq_some (h : s.step owner .pop = some s') :
    ∃ old rest, s.handles = old :: rest ∧ s' = (s.withHandles rest).release (owner old) := by
  cases hhandles : s.handles with
  | nil =>
    rw [step, hhandles] at h
    cases h
  | cons old rest =>
    rw [step, hhandles] at h
    exact ⟨old, rest, rfl, (Option.some.inj h).symm⟩

/-! ## Owners more and less -/

/-- Other handles leave the use counts. -/
@[simp]
theorem withHandles_useCount (handles : List Handle) :
    (s.withHandles handles).useCount = s.useCount := rfl

/-- Other handles leave the objects alive. -/
@[simp]
theorem withHandles_alive (handles : List Handle) : (s.withHandles handles).alive = s.alive := rfl

/-- Other handles leave the number of objects. -/
@[simp]
theorem withHandles_created (handles : List Handle) :
    (s.withHandles handles).created = s.created := rfl

/-- The handles are the ones given. -/
@[simp]
theorem withHandles_handles (handles : List Handle) :
    (s.withHandles handles).handles = handles := rfl

/-- Acquiring counts one more use of the object. -/
theorem acquire_useCount (o : Option ℕ) (b : ℕ) :
    (s.acquire o).useCount b = s.useCount b + if o = some b then 1 else 0 := by
  cases o with
  | none => simp [acquire]
  | some c =>
    by_cases hbc : b = c
    · simp [acquire, hbc]
    · simp [acquire, hbc, Ne.symm hbc]

/-- Releasing counts one use less. -/
theorem release_useCount (o : Option ℕ) (b : ℕ) :
    (s.release o).useCount b = s.useCount b - if o = some b then 1 else 0 := by
  cases o with
  | none => simp [release]
  | some c =>
    by_cases hbc : b = c
    · simp [release, hbc]
    · simp [release, hbc, Ne.symm hbc]

/-- Acquiring leaves the objects alive. -/
@[simp]
theorem acquire_alive (o : Option ℕ) : (s.acquire o).alive = s.alive := by cases o <;> rfl

/-- Acquiring leaves the number of objects. -/
@[simp]
theorem acquire_created (o : Option ℕ) : (s.acquire o).created = s.created := by
  cases o <;> rfl

/-- Releasing leaves the number of objects. -/
@[simp]
theorem release_created (o : Option ℕ) : (s.release o).created = s.created := by
  cases o <;> rfl

/-- Releasing leaves the handles. -/
@[simp]
theorem release_handles (o : Option ℕ) : (s.release o).handles = s.handles := by
  cases o <;> rfl

/-- Only the block released may be destroyed, and it is when its owner was the last. -/
theorem release_alive (o : Option ℕ) (b : ℕ) :
    (s.release o).alive b = true ↔ s.alive b = true ∧ ¬ (o = some b ∧ s.useCount b = 1) := by
  cases o with
  | none => simp [release]
  | some c =>
    by_cases hbc : b = c
    · subst hbc
      by_cases hlast : s.useCount b = 1 <;> simp [release, hlast]
    · by_cases hlast : s.useCount c = 1 <;> simp [release, hlast, hbc, Ne.symm hbc]

/-- Releasing keeps blocks there while they have owners. -/
theorem release_alive_iff (h : ∀ b, s.alive b = true ↔ 0 < s.useCount b) (o : Option ℕ) (b : ℕ) :
    (s.release o).alive b = true ↔ 0 < (s.release o).useCount b := by
  rw [release_alive, release_useCount, h]
  split_ifs with ho
  · simp only [ho, true_and]
    omega
  · simp [ho]

/-! ## The invariant -/

/-- The empty store is counted. -/
theorem counted_empty : (empty : Store Handle).Counted owner where
  useCount_eq _ := rfl
  alive_iff b := by simp [empty]
  lt_created b h := by cases h

/-- A block is there exactly while a handle owns it. -/
theorem Counted.alive_iff_exists (h : s.Counted owner) (b : ℕ) :
    s.alive b = true ↔ ∃ handle ∈ s.handles, owner handle = some b := by
  rw [h.alive_iff, h.useCount_eq, List.countP_pos_iff]
  simp only [decide_eq_true_eq]

/-- Handles own blocks created. -/
theorem Counted.lt_of_owner (h : s.Counted owner) {handle : Handle} {b : ℕ}
    (hmem : handle ∈ s.handles) (howner : owner handle = some b) : b < s.created :=
  h.lt_created b ((h.alive_iff_exists b).mpr ⟨handle, hmem, howner⟩)

/-- One more handle, for the only block that may have lacked owners. -/
theorem counted_push {handle : Handle}
    (huse : ∀ b, s.useCount b = s.handles.countP fun h => owner h = some b)
    (halive : ∀ b, s.alive b = true ↔ 0 < s.useCount b ∨ owner handle = some b)
    (hlt : ∀ b, s.alive b = true → b < s.created) :
    ((s.acquire (owner handle)).withHandles (handle :: s.handles)).Counted owner where
  useCount_eq b := by
    rw [withHandles_useCount, withHandles_handles, acquire_useCount, huse, List.countP_cons]
    simp only [decide_eq_true_eq]
  alive_iff b := by
    rw [withHandles_alive, withHandles_useCount, acquire_alive, acquire_useCount, halive]
    split_ifs with howner <;> simp [howner]
  lt_created b hb := by
    rw [withHandles_alive, acquire_alive] at hb
    rw [withHandles_created, acquire_created]
    exact hlt b hb

/-- One more handle, for a block that is there. -/
theorem Counted.push (h : s.Counted owner) {handle : Handle}
    (hadmits : ∀ b, owner handle = some b → s.alive b = true) :
    ((s.acquire (owner handle)).withHandles (handle :: s.handles)).Counted owner := by
  refine counted_push h.useCount_eq (fun b => ?_) h.lt_created
  rw [h.alive_iff, iff_self_or]
  exact fun howner => (h.alive_iff b).mp (hadmits b howner)

/-- A new block with its first handle. -/
theorem Counted.make (h : s.Counted owner) {handle : Handle}
    (howner : owner handle = some s.created) :
    ((s.create.acquire (owner handle)).withHandles (handle :: s.handles)).Counted owner := by
  refine counted_push (s := s.create) h.useCount_eq (fun b => ?_) fun b hb => ?_
  · change Function.update s.alive s.created true b = true ↔ 0 < s.useCount b ∨ _
    rw [howner, Option.some_inj, ← h.alive_iff]
    by_cases hb : b = s.created
    · simp [hb]
    · simp [hb, Ne.symm hb]
  · change b < s.created + 1
    by_cases hnew : b = s.created
    · omega
    · have hold : s.alive b = true := by
        rw [← Function.update_of_ne hnew true s.alive]
        exact hb
      have hlt := h.lt_created b hold
      omega

/-- One handle less. -/
theorem Counted.pop {old : Handle} {rest : List Handle}
    (h : (s.withHandles (old :: rest)).Counted owner) :
    ((s.withHandles rest).release (owner old)).Counted owner where
  useCount_eq b := by
    have hcount := h.useCount_eq b
    rw [withHandles_useCount, withHandles_handles, List.countP_cons] at hcount
    rw [release_useCount, release_handles, withHandles_useCount, withHandles_handles, hcount]
    simp only [decide_eq_true_eq]
    omega
  alive_iff b :=
    release_alive_iff (s := s.withHandles rest) h.alive_iff (owner old) b
  lt_created b halive := by
    rw [release_created]
    exact h.lt_created b ((release_alive _ b).mp halive).1

/-- The invariant does not depend on the order of the handles. -/
theorem Counted.perm {handles handles' : List Handle} (hperm : handles.Perm handles')
    (h : (s.withHandles handles).Counted owner) : (s.withHandles handles').Counted owner where
  useCount_eq b := (h.useCount_eq b).trans (hperm.countP_eq _)
  alive_iff := h.alive_iff
  lt_created := h.lt_created

/-- A handle set in a list is a handle exchanged for the old one. -/
theorem cons_perm_set {handles : List Handle} {i : ℕ} {old : Handle} (h : handles[i]? = some old)
    (handle : Handle) : (handle :: handles).Perm (old :: handles.set i handle) := by
  obtain ⟨hi, rfl⟩ := List.getElem?_eq_some_iff.mp h
  calc
    (handle :: handles).Perm (handle :: handles[i] :: handles.eraseIdx i) :=
      (List.getElem_cons_eraseIdx_perm hi).symm.cons handle
    List.Perm _ (handles[i] :: handle :: handles.eraseIdx i) := List.Perm.swap _ _ _
    List.Perm _ (handles[i] :: handles.set i handle) :=
      (List.set_perm_cons_eraseIdx hi handle).symm.cons handles[i]

/-- A command that the store admits keeps the invariant. -/
theorem Counted.step (h : s.Counted owner) {c : Command Handle} (hadmits : s.Admits owner c)
    (hstep : s.step owner c = some s') : s'.Counted owner := by
  cases c with
  | make handle =>
    cases hstep
    exact h.make hadmits
  | push handle =>
    cases hstep
    exact h.push hadmits
  | assign i handle =>
    obtain ⟨old, hold, rfl⟩ := Option.map_eq_some_iff.mp hstep
    exact ((h.push hadmits).perm (cons_perm_set hold handle)).pop
  | pop =>
    obtain ⟨old, rest, hhandles, rfl⟩ := step_pop_eq_some hstep
    have hall : (s.withHandles (old :: rest)).Counted owner := by
      rw [← hhandles]
      exact h
    exact hall.pop

/-! ## Lifetimes -/

/-- A command leaves the blocks created so far alone, or destroys some. -/
theorem step_alive {c : Command Handle} (hstep : s.step owner c = some s') {b : ℕ}
    (hb : b < s.created) : b < s'.created ∧ (s'.alive b = true → s.alive b = true) := by
  cases c with
  | make handle =>
    cases hstep
    rw [withHandles_created, withHandles_alive, acquire_created, acquire_alive]
    refine ⟨Nat.lt_succ_of_lt hb, fun halive => ?_⟩
    rw [← Function.update_of_ne (Nat.ne_of_lt hb) true s.alive]
    exact halive
  | push handle =>
    cases hstep
    rw [withHandles_created, withHandles_alive, acquire_created, acquire_alive]
    exact ⟨hb, id⟩
  | assign i handle =>
    obtain ⟨old, -, rfl⟩ := Option.map_eq_some_iff.mp hstep
    rw [release_created, release_alive, withHandles_created, withHandles_alive, acquire_created,
      acquire_alive]
    exact ⟨hb, And.left⟩
  | pop =>
    obtain ⟨old, rest, -, rfl⟩ := step_pop_eq_some hstep
    rw [release_created, release_alive, withHandles_created, withHandles_alive]
    exact ⟨hb, And.left⟩

end Store

end SharedOwnership
