import Mathlib.Data.Finset.Card
import Mathlib.Data.Finset.Image
import Mathlib.Tactic.Common

/-!
# Sets of keys

What a program asks of a container that holds elements with different keys, and what a
set of keys answers. How the container is organized does not matter to a set.
-/

namespace KeySet

/-- What a program asks of a container. -/
inductive Command (Key : Type*)
  | insert (k : Key)
  | erase (k : Key)
  | count (k : Key)
  | size
  /-- The container keeps its elements in another way. -/
  | reorganize (n : ℕ)

namespace Command

variable {Key α β : Type*}

/-- The elements that a command names. -/
def keys : Command Key → List Key
  | .insert k | .erase k | .count k => [k]
  | .size | .reorganize _ => []

/-- The command for other elements. -/
def map (f : Key → α) : Command Key → Command α
  | .insert k => .insert (f k)
  | .erase k => .erase (f k)
  | .count k => .count (f k)
  | .size => .size
  | .reorganize n => .reorganize n

/-- What a command does to a set, and its answer. -/
def apply [DecidableEq α] (s : Finset α) : Command α → Finset α × ℕ
  | .insert a => (Insert.insert a s, if a ∈ s then 0 else 1)
  | .erase a => (s.erase a, if a ∈ s then 1 else 0)
  | .count a => (s, if a ∈ s then 1 else 0)
  | .size => (s, s.card)
  | .reorganize _ => (s, 0)

end Command

/-- The answers of a set to the commands of a program. -/
def answers {α : Type*} [DecidableEq α] (s : Finset α) : List (Command α) → List ℕ
  | [] => []
  | c :: cs => (c.apply s).2 :: answers (c.apply s).1 cs

/-! ## Other names for the keys -/

section Map

variable {ι Key α β : Type*} {P : Key → Prop}

/-- The commands for the images of elements name these images. -/
theorem Command.keys_map {f : ι → Key} {cs : List (Command ι)}
    (h : ∀ c ∈ cs, ∀ a ∈ c.keys, P (f a)) : ∀ c ∈ cs.map (·.map f), ∀ k ∈ c.keys, P k := by
  intro c hc k hk
  obtain ⟨c, hmem, rfl⟩ := List.mem_map.mp hc
  have hall := h c hmem
  cases c with
  | insert a | erase a | count a =>
    rw [List.mem_singleton.mp hk]
    exact hall a (List.mem_singleton_self a)
  | size | reorganize n => cases hk

/-- Renaming twice is renaming once. -/
theorem Command.map_map (f : ι → Key) (g : Key → β) (cs : List (Command ι)) :
    (cs.map (·.map f)).map (·.map g) = cs.map (·.map fun a => g (f a)) := by
  rw [List.map_map]
  congr 1
  funext c
  cases c <;> rfl

variable [DecidableEq α] [DecidableEq β] (f : α ↪ β)

/-- A command on renamed elements has a renamed effect and the same answer. -/
theorem Command.apply_map (c : Command α) (s : Finset α) :
    (c.map f).apply (s.map f) = ((c.apply s).1.map f, (c.apply s).2) := by
  cases c with
  | insert a => simp [Command.map, Command.apply, Finset.map_insert]
  | erase a => simp [Command.map, Command.apply, Finset.map_erase]
  | count a => simp [Command.map, Command.apply]
  | size => simp [Command.map, Command.apply]
  | reorganize n => rfl

/-- A set gives the same answers when its elements are renamed. -/
theorem answers_map (s : Finset α) (cs : List (Command α)) :
    answers (s.map f) (cs.map (·.map f)) = answers s cs := by
  induction cs generalizing s with
  | nil => rfl
  | cons c cs ih =>
    rw [List.map_cons, answers, Command.apply_map, ih]
    rfl

end Map

end KeySet
