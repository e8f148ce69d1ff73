import Mathlib.Data.Tree.Basic
import Mathlib.Order.Basic
import TypeIndex.KeySet

/-!
# Search trees

A search tree compares an element with those on its way down, the other way round where
the first comparison fails, and may be rebalanced by any function that keeps the order of
its elements. With a comparison that orders elements by a key every run of commands gives
the answers of a set of keys.
-/

namespace SearchTree

open KeySet

/-- The elements of a tree in their order. -/
def elements {Key : Type*} : BinaryTree Key → List Key
  | .nil => []
  | .node a l r => elements l ++ a :: elements r

/-- Ways to rebalance a tree. -/
structure Rebalancing (Key : Type*) where
  /-- Another tree. -/
  rebalance : ℕ → BinaryTree Key → BinaryTree Key
  /-- Rebalancing keeps the elements in their order. -/
  elements_rebalance : ∀ n t, elements (rebalance n t) = elements t

/-- The comparison of a set, and the ways to rebalance its tree. -/
structure TreeOps (Key : Type*) extends Rebalancing Key where
  /-- Whether an element precedes another one. -/
  less : Key → Key → Bool

/-- The rotation of a root with a left child. -/
def rotateRight {Key : Type*} : BinaryTree Key → BinaryTree Key
  | .node a (.node b ll lr) r => .node b ll (.node a lr r)
  | t => t

/-- Rebalancing by rotations of the root. -/
def Rebalancing.rotations (Key : Type*) : Rebalancing Key where
  rebalance n := rotateRight^[n]
  elements_rebalance n t := by
    induction n generalizing t with
    | zero => rfl
    | succ n ih =>
      rw [Function.iterate_succ_apply, ih]
      rcases t with _ | ⟨a, _ | ⟨b, ll, lr⟩, r⟩ <;> simp [rotateRight, elements]

section

variable {Key : Type*} (O : TreeOps Key)

/-- Inserts an element unless there is an equal one; the number of elements inserted. -/
def insert (k : Key) : BinaryTree Key → BinaryTree Key × ℕ
  | .nil => (.node k .nil .nil, 1)
  | .node a l r =>
    if O.less k a then
      let p := insert k l
      (.node a p.1 r, p.2)
    else if O.less a k then
      let p := insert k r
      (.node a l p.1, p.2)
    else (.node a l r, 0)

/-- The first element of a tree with a root, and a tree of the others. -/
def popFirst : Key → BinaryTree Key → BinaryTree Key → Key × BinaryTree Key
  | a, .nil, r => (a, r)
  | a, .node b ll lr, r =>
    let p := popFirst b ll lr
    (p.1, .node a p.2 r)

/-- A tree of the elements of two trees. -/
def join (l : BinaryTree Key) : BinaryTree Key → BinaryTree Key
  | .nil => l
  | .node a rl rr =>
    let p := popFirst a rl rr
    .node p.1 l p.2

/-- Erases the element equal to another one; the number of elements erased. -/
def erase (k : Key) : BinaryTree Key → BinaryTree Key × ℕ
  | .nil => (.nil, 0)
  | .node a l r =>
    if O.less k a then
      let p := erase k l
      (.node a p.1 r, p.2)
    else if O.less a k then
      let p := erase k r
      (.node a l p.1, p.2)
    else (join l r, 1)

/-- The number of elements equal to another one. -/
def count (k : Key) : BinaryTree Key → ℕ
  | .nil => 0
  | .node a l r => if O.less k a then count k l else if O.less a k then count k r else 1

/-- What a command does to a tree, and its answer. -/
def step (t : BinaryTree Key) : Command Key → BinaryTree Key × ℕ
  | .insert k => insert O k t
  | .erase k => erase O k t
  | .count k => (t, count O k t)
  | .size => (t, (elements t).length)
  | .reorganize n => (O.rebalance n t, 0)

/-- The answers of a tree to the commands of a program. -/
def run (t : BinaryTree Key) : List (Command Key) → List ℕ
  | [] => []
  | c :: cs => (step O t c).2 :: run (step O t c).1 cs

end

/-! ## Elements in order -/

variable {Key α : Type*} {O : TreeOps Key} {key : Key → α} {t l r : BinaryTree Key} {a k : Key}

/-- The keys of the elements. -/
def keys (key : Key → α) (t : BinaryTree Key) : List α := (elements t).map key

/-- The keys of a tree are those of its parts around that of the root. -/
theorem keys_node : keys key (.node a l r) = keys key l ++ key a :: keys key r := by
  simp [keys, elements]

/-- A key of a tree is that of the root or one of a part. -/
theorem mem_keys_node {x : α} :
    x ∈ keys key (.node a l r) ↔ x ∈ keys key l ∨ x = key a ∨ x ∈ keys key r := by
  rw [keys_node, List.mem_append, List.mem_cons]

variable [LinearOrder α]

/-- The comparison orders elements by their keys. -/
def TreeOps.Orders (O : TreeOps Key) (key : Key → α) : Prop :=
  ∀ a b, O.less a b = true ↔ key a < key b

/-- The keys of a tree ascend. -/
def Sorted (key : Key → α) (t : BinaryTree Key) : Prop :=
  (keys key t).Pairwise (· < ·)

/-- A tree is sorted when its parts are and stand on the right sides of the root. -/
theorem sorted_node : Sorted key (.node a l r) ↔ Sorted key l ∧ Sorted key r ∧
    (∀ x ∈ keys key l, x < key a) ∧ ∀ x ∈ keys key r, key a < x := by
  rw [Sorted, keys_node, List.pairwise_append, List.pairwise_cons]
  constructor
  · rintro ⟨hl, ⟨hright, hr⟩, hleft⟩
    exact ⟨hl, hr, fun x hx => hleft x hx _ List.mem_cons_self, hright⟩
  · rintro ⟨hl, hr, hleft, hright⟩
    refine ⟨hl, ⟨hright, hr⟩, fun x hx y hy => ?_⟩
    rcases List.mem_cons.mp hy with rfl | hy
    · exact hleft x hx
    · exact (hleft x hx).trans (hright y hy)

/-- A key before the root's can only be on the left. -/
theorem Sorted.mem_keys_left (h : Sorted key (.node a l r)) {x : α} (hx : x < key a) :
    x ∈ keys key (.node a l r) ↔ x ∈ keys key l := by
  obtain ⟨-, -, -, hright⟩ := sorted_node.mp h
  rw [mem_keys_node, or_iff_left]
  rintro (rfl | hmem)
  · exact lt_irrefl _ hx
  · exact lt_asymm hx (hright x hmem)

/-- A key behind the root's can only be on the right. -/
theorem Sorted.mem_keys_right (h : Sorted key (.node a l r)) {x : α} (hx : key a < x) :
    x ∈ keys key (.node a l r) ↔ x ∈ keys key r := by
  obtain ⟨-, -, hleft, -⟩ := sorted_node.mp h
  rw [mem_keys_node]
  constructor
  · rintro (hmem | rfl | hmem)
    · exact absurd (hleft x hmem) (lt_asymm hx)
    · exact absurd hx (lt_irrefl _)
    · exact hmem
  · exact fun hmem => Or.inr (Or.inr hmem)

/-- Comparing in both directions compares the keys. -/
theorem TreeOps.Orders.cases (hO : O.Orders key) (a k : Key) :
    (O.less k a = true ∧ key k < key a) ∨
    (O.less k a = false ∧ O.less a k = true ∧ key a < key k) ∨
    (O.less k a = false ∧ O.less a k = false ∧ key a = key k) := by
  rcases lt_trichotomy (key k) (key a) with hlt | heq | hgt
  · exact Or.inl ⟨(hO k a).mpr hlt, hlt⟩
  · refine Or.inr (Or.inr ⟨?_, ?_, heq.symm⟩)
    · exact Bool.eq_false_iff.mpr fun h => absurd ((hO k a).mp h) heq.not_lt
    · exact Bool.eq_false_iff.mpr fun h => absurd ((hO a k).mp h) heq.symm.not_lt
  · refine Or.inr (Or.inl ⟨?_, (hO a k).mpr hgt, hgt⟩)
    exact Bool.eq_false_iff.mpr fun h => absurd ((hO k a).mp h) hgt.not_gt

/-! ## The operations -/

/-- Only the element inserted is new, if any is. -/
theorem mem_insert {x : Key} : x ∈ elements (insert O k t).1 ↔
    x ∈ elements t ∨ (x = k ∧ (insert O k t).2 = 1) := by
  induction t with
  | nil => simp [insert, elements]
  | node a l r ihl ihr =>
    rw [insert]
    split_ifs
    · simp only [elements, List.mem_append, List.mem_cons, ihl]
      exact or_right_comm
    · simp only [elements, List.mem_append, List.mem_cons, ihr, or_assoc]
    · simp

/-- The search finds the keys that are there. -/
theorem count_eq (hO : O.Orders key) (ht : Sorted key t) :
    count O k t = if key k ∈ keys key t then 1 else 0 := by
  induction t with
  | nil => rfl
  | node a l r ihl ihr =>
    obtain ⟨hl, hr, -⟩ := sorted_node.mp ht
    rw [count]
    rcases hO.cases a k with ⟨hless, hlt⟩ | ⟨hless, hgreater, hlt⟩ | ⟨hless, hgreater, heq⟩
    · simp only [hless, if_true, ihl hl, ht.mem_keys_left hlt]
    · simp only [hless, hgreater, if_true, Bool.false_eq_true, if_false, ihr hr,
        ht.mem_keys_right hlt]
    · simp [hless, hgreater, mem_keys_node, heq]

/-- An element is inserted when the search finds no equal one. -/
theorem insert_answer (O : TreeOps Key) (k : Key) (t : BinaryTree Key) :
    (insert O k t).2 = 1 - count O k t := by
  induction t with
  | nil => rfl
  | node a l r ihl ihr =>
    rw [insert, count]
    split_ifs
    · exact ihl
    · exact ihr
    · rfl

/-- An element is erased when the search finds it. -/
theorem erase_answer (O : TreeOps Key) (k : Key) (t : BinaryTree Key) :
    (erase O k t).2 = count O k t := by
  induction t with
  | nil => rfl
  | node a l r ihl ihr =>
    rw [erase, count]
    split_ifs
    · exact ihl
    · exact ihr
    · rfl

/-- The keys after an insertion. -/
theorem mem_keys_insert (hO : O.Orders key) (ht : Sorted key t) {x : α} :
    x ∈ keys key (insert O k t).1 ↔ x = key k ∨ x ∈ keys key t := by
  have hanswer := insert_answer O k t
  rw [count_eq hO ht] at hanswer
  simp only [keys, List.mem_map, mem_insert] at hanswer ⊢
  constructor
  · rintro ⟨y, hy | ⟨rfl, -⟩, rfl⟩
    · exact Or.inr ⟨y, hy, rfl⟩
    · exact Or.inl rfl
  · rintro (rfl | ⟨y, hy, rfl⟩)
    · by_cases hmem : ∃ y ∈ elements t, key y = key k
      · obtain ⟨y, hy, hkey⟩ := hmem
        exact ⟨y, Or.inl hy, hkey⟩
      · exact ⟨k, Or.inr ⟨rfl, by rw [hanswer, if_neg hmem]⟩, rfl⟩
    · exact ⟨y, Or.inl hy, rfl⟩

/-- Inserting keeps a tree sorted. -/
theorem Sorted.insert (hO : O.Orders key) (ht : Sorted key t) :
    Sorted key (insert O k t).1 := by
  induction t with
  | nil => exact List.pairwise_singleton _ _
  | node a l r ihl ihr =>
    obtain ⟨hl, hr, hleft, hright⟩ := sorted_node.mp ht
    rw [SearchTree.insert]
    rcases hO.cases a k with ⟨hless, hlt⟩ | ⟨hless, hgreater, hlt⟩ | ⟨hless, hgreater, -⟩
    · simp only [hless, if_true]
      refine sorted_node.mpr ⟨ihl hl, hr, fun x hx => ?_, hright⟩
      rcases (mem_keys_insert hO hl).mp hx with rfl | hx
      · exact hlt
      · exact hleft x hx
    · simp only [hless, hgreater, if_true, Bool.false_eq_true, if_false]
      refine sorted_node.mpr ⟨hl, ihr hr, hleft, fun x hx => ?_⟩
      rcases (mem_keys_insert hO hr).mp hx with rfl | hx
      · exact hlt
      · exact hright x hx
    · simp only [hless, hgreater, Bool.false_eq_true, if_false]
      exact ht

/-- The first element and the others are all elements in their order. -/
theorem elements_popFirst (a : Key) (l r : BinaryTree Key) :
    (popFirst a l r).1 :: elements (popFirst a l r).2 = elements (.node a l r) := by
  induction l generalizing a r with
  | nil => rfl
  | node b ll lr ih _ =>
    rw [popFirst]
    simp only [elements]
    rw [← List.cons_append, ih]
    rfl

/-- Two trees are joined in their order. -/
theorem elements_join (l r : BinaryTree Key) : elements (join l r) = elements l ++ elements r := by
  cases r with
  | nil => simp [join, elements]
  | node a rl rr =>
    rw [← elements_popFirst a rl rr]
    rfl

/-- Elements on the left keep their place when a key from the root on is removed. -/
theorem Sorted.filter_left (h : Sorted key (.node a l r)) {x : α} (hx : key a ≤ x) :
    (elements l).filter (fun y => key y ≠ x) = elements l := by
  obtain ⟨-, -, hleft, -⟩ := sorted_node.mp h
  refine List.filter_eq_self.mpr fun y hy => decide_eq_true ?_
  have hlt := hleft _ (List.mem_map_of_mem hy)
  exact (hlt.trans_le hx).ne

/-- Elements on the right keep their place when a key up to the root is removed. -/
theorem Sorted.filter_right (h : Sorted key (.node a l r)) {x : α} (hx : x ≤ key a) :
    (elements r).filter (fun y => key y ≠ x) = elements r := by
  obtain ⟨-, -, -, hright⟩ := sorted_node.mp h
  refine List.filter_eq_self.mpr fun y hy => decide_eq_true ?_
  have hlt := hright _ (List.mem_map_of_mem hy)
  exact (hx.trans_lt hlt).ne'

/-- Erasing removes the element with the key, if there is one. -/
theorem elements_erase (hO : O.Orders key) (ht : Sorted key t) :
    elements (erase O k t).1 = (elements t).filter fun x => key x ≠ key k := by
  induction t with
  | nil => rfl
  | node a l r ihl ihr =>
    obtain ⟨hl, hr, -⟩ := sorted_node.mp ht
    rw [erase]
    rcases hO.cases a k with ⟨hless, hlt⟩ | ⟨hless, hgreater, hlt⟩ | ⟨hless, hgreater, heq⟩
    · simp only [hless, if_true]
      rw [elements, elements, ihl hl, List.filter_append, List.filter_cons_of_pos
        (by simp [hlt.ne']), ht.filter_right hlt.le]
    · simp only [hless, hgreater, if_true, Bool.false_eq_true, if_false]
      rw [elements, elements, ihr hr, List.filter_append, List.filter_cons_of_pos
        (by simp [hlt.ne]), ht.filter_left hlt.le]
    · simp only [hless, hgreater, Bool.false_eq_true, if_false]
      rw [elements_join, elements, List.filter_append, ht.filter_left heq.le,
        List.filter_cons_of_neg (by simp [heq]), ht.filter_right heq.ge]

/-- Erasing keeps a tree sorted. -/
theorem Sorted.erase (hO : O.Orders key) (ht : Sorted key t) :
    Sorted key (erase O k t).1 := by
  rw [Sorted, keys, elements_erase hO ht]
  exact ht.sublist (List.filter_sublist.map key)

/-- The keys after an erasure. -/
theorem mem_keys_erase (hO : O.Orders key) (ht : Sorted key t) {x : α} :
    x ∈ keys key (SearchTree.erase O k t).1 ↔ x ≠ key k ∧ x ∈ keys key t := by
  simp only [keys, elements_erase hO ht, List.mem_map, List.mem_filter, decide_eq_true_eq]
  constructor
  · rintro ⟨y, ⟨hy, hne⟩, rfl⟩
    exact ⟨hne, y, hy, rfl⟩
  · rintro ⟨hne, y, hy, rfl⟩
    exact ⟨y, ⟨hy, hne⟩, rfl⟩

/-! ## Runs -/

/-- A command has the same effect and the same answer on a tree and on the set of its keys. -/
theorem Sorted.step (hO : O.Orders key) (ht : Sorted key t) (c : Command Key) :
    Sorted key (step O t c).1 ∧ (c.map key).apply (keys key t).toFinset =
      ((keys key (SearchTree.step O t c).1).toFinset, (SearchTree.step O t c).2) := by
  cases c with
  | insert k =>
    refine ⟨ht.insert hO, Prod.ext (Finset.ext fun x => ?_) ?_⟩
    · rw [List.mem_toFinset, SearchTree.step, mem_keys_insert hO ht]
      simp [Command.map, Command.apply]
    · rw [SearchTree.step, insert_answer, count_eq hO ht]
      by_cases hmem : key k ∈ keys key t <;> simp [Command.map, Command.apply, hmem]
  | erase k =>
    refine ⟨ht.erase hO, Prod.ext (Finset.ext fun x => ?_) ?_⟩
    · rw [List.mem_toFinset, SearchTree.step, mem_keys_erase hO ht]
      simp [Command.map, Command.apply]
    · rw [SearchTree.step, erase_answer, count_eq hO ht]
      simp [Command.map, Command.apply]
  | count k =>
    refine ⟨ht, Prod.ext rfl ?_⟩
    rw [SearchTree.step, count_eq hO ht]
    simp [Command.map, Command.apply]
  | size =>
    refine ⟨ht, Prod.ext rfl ?_⟩
    have hnodup : (keys key t).Nodup := List.Pairwise.nodup ht
    rw [SearchTree.step, Command.map, Command.apply, List.toFinset_card_of_nodup hnodup, keys,
      List.length_map]
  | reorganize n =>
    have hkeys : keys key (O.rebalance n t) = keys key t :=
      congrArg (List.map key) (O.elements_rebalance n t)
    rw [Sorted, SearchTree.step, hkeys]
    exact ⟨ht, rfl⟩

/-- Every run of a sorted tree gives the answers of the set of its keys. -/
theorem Sorted.run (hO : O.Orders key) (ht : Sorted key t) (cs : List (Command Key)) :
    run O t cs = answers (keys key t).toFinset (cs.map (·.map key)) := by
  induction cs generalizing t with
  | nil => rfl
  | cons c cs ih =>
    obtain ⟨hsorted, hstep⟩ := ht.step hO c
    rw [SearchTree.run, List.map_cons, answers, hstep, ih hsorted]

end SearchTree
