import Mathlib.Data.List.Infix
import Mathlib.Data.List.TakeWhile
import Mathlib.Tactic.Common

/-!
# Array objects, pointers and terminated strings

A memory maps the identity of an array object to its elements. A pointer names
an object and a position in it, so pointer comparison sees identities while a
read sees elements, and a read outside the object has no result. A `CStr` is a
pointer together with the fact that a zero element follows it in its object.
-/

namespace CMemory

variable {α : Type*}

/-- A pointer value: an array object and the position designated in it. -/
structure Pointer where
  /-- The array object pointed into. -/
  block : ℕ
  /-- The designated position, equal to the object's length one past its end. -/
  offset : ℕ
  deriving DecidableEq, Repr

/-- Pointer arithmetic moves inside one array object. -/
instance : HAdd Pointer ℕ Pointer := ⟨fun p n => ⟨p.block, p.offset + n⟩⟩

/-- An offset stays in the block. -/
@[simp] theorem Pointer.add_block (p : Pointer) (n : ℕ) : (p + n).block = p.block := rfl

/-- An offset is added to the one in the block. -/
@[simp] theorem Pointer.add_offset (p : Pointer) (n : ℕ) : (p + n).offset = p.offset + n := rfl

/-- An offset of zero changes nothing. -/
@[simp] theorem Pointer.add_zero (p : Pointer) : p + 0 = p := rfl

/-- Offsets add up. -/
@[simp] theorem Pointer.add_add (p : Pointer) (a b : ℕ) : p + a + b = p + (a + b) := by
  change Pointer.mk p.block (p.offset + a + b) = Pointer.mk p.block (p.offset + (a + b))
  rw [Nat.add_assoc]

/-- Moving back inside the object. There is no pointer before the object's start. -/
instance : HSub Pointer ℕ Pointer := ⟨fun p n => ⟨p.block, p.offset - n⟩⟩

/-- Going back subtracts from the offset in the block. -/
@[simp] theorem Pointer.sub_offset (p : Pointer) (n : ℕ) : (p - n).offset = p.offset - n := rfl

/-- Going back undoes a part of an offset. -/
@[simp] theorem Pointer.add_sub (p : Pointer) {a b : ℕ} (h : b ≤ a) : p + a - b = p + (a - b) := by
  change Pointer.mk p.block (p.offset + a - b) = Pointer.mk p.block (p.offset + (a - b))
  rw [Nat.add_sub_assoc h]

/-- Advances of one pointer agree exactly when the distances agree. -/
@[simp] theorem Pointer.add_right_inj (p : Pointer) (a b : ℕ) : p + a = p + b ↔ a = b := by
  constructor
  · intro h
    have hoffset := congrArg Pointer.offset h
    simpa using hoffset
  · rintro rfl
    rfl

/-- The end of a run seen from its second element. -/
theorem Pointer.add_length_cons (p : Pointer) (c : α) (s : List α) :
    p + (c :: s).length = p + 1 + s.length := by
  rw [Pointer.add_add, List.length_cons, Nat.add_comm]

/-- A positive advance changes the pointer. -/
theorem Pointer.ne_add (p : Pointer) {n : ℕ} (hn : 0 < n) : p ≠ p + n := by
  intro h
  have hoffset := congrArg Pointer.offset h
  rw [Pointer.add_offset] at hoffset
  omega

/-- The elements of every array object. -/
abbrev Memory (α : Type*) := ℕ → List α

namespace Memory

/-- The elements of the designated object from the pointer to the object's end. -/
def after (m : Memory α) (p : Pointer) : List α := (m p.block).drop p.offset

/-- Reading through a pointer; a read outside the object has no result. -/
def read (m : Memory α) (p : Pointer) : Option α := (m p.block)[p.offset]?

/-- Reading a run of elements; every one of them must lie inside the object. -/
def readRun (m : Memory α) (p : Pointer) (n : ℕ) : Option (List α) :=
  if n ≤ (m.after p).length then some ((m.after p).take n) else none

/-- The object holds the given elements from the pointer on. -/
def HoldsAt (m : Memory α) (p : Pointer) (s : List α) : Prop := s <+: m.after p

/-- Comparing finitely many elements decides it. -/
instance [DecidableEq α] (m : Memory α) (p : Pointer) (s : List α) : Decidable (m.HoldsAt p s) :=
  inferInstanceAs (Decidable (s <+: m.after p))

/-- What is behind a later pointer is the rest of what is behind an earlier one. -/
theorem after_add (m : Memory α) (p : Pointer) (n : ℕ) :
    m.after (p + n) = (m.after p).drop n := by
  simp [after, List.drop_drop]

/-- A read gives the first element behind the pointer. -/
theorem read_eq (m : Memory α) (p : Pointer) : m.read p = (m.after p)[0]? := by
  simp [read, after]

/-- A read at an offset gives the element at that place behind the pointer. -/
theorem read_add (m : Memory α) (p : Pointer) (n : ℕ) : m.read (p + n) = (m.after p)[n]? := by
  simp [read, after]

/-- A successful read leaves room in the object, the measure of every scan forward. -/
theorem after_add_one_length_lt {m : Memory α} {p : Pointer} {c : α} (h : m.read p = some c) :
    (m.after (p + 1)).length < (m.after p).length := by
  rw [read_eq] at h
  obtain ⟨hpos, _⟩ := List.getElem?_eq_some_iff.mp h
  rw [after_add, List.length_drop]
  omega

/-- Reading at the start of a held run returns its first element. -/
theorem HoldsAt.read_head {m : Memory α} {p : Pointer} {c : α} {s : List α}
    (h : m.HoldsAt p (c :: s)) : m.read p = some c := by
  obtain ⟨rest, hrest⟩ := h
  rw [read_eq, ← hrest]
  rfl

/-- A held run continues with its tail at the next position. -/
theorem HoldsAt.tail {m : Memory α} {p : Pointer} {c : α} {s : List α}
    (h : m.HoldsAt p (c :: s)) : m.HoldsAt (p + 1) s := by
  obtain ⟨rest, hrest⟩ := h
  exact ⟨rest, by rw [after_add, ← hrest]; rfl⟩

/-- Reading inside a held run returns the run's element. -/
theorem HoldsAt.read {m : Memory α} {p : Pointer} {s : List α} (h : m.HoldsAt p s) {i : ℕ}
    (hi : i < s.length) : m.read (p + i) = some s[i] := by
  rw [read_add, h.getElem hi]
  exact List.getElem?_eq_getElem _

/-- A held concatenation holds its second part further on. -/
theorem HoldsAt.add {m : Memory α} {p : Pointer} {s t : List α} (h : m.HoldsAt p (s ++ t)) :
    m.HoldsAt (p + s.length) t := by
  obtain ⟨rest, hrest⟩ := h
  refine ⟨rest, ?_⟩
  rw [after_add, ← hrest, List.append_assoc, List.drop_left]

/-- Reading a held run as a whole returns it. -/
theorem HoldsAt.readRun {m : Memory α} {p : Pointer} {s : List α} (h : m.HoldsAt p s) :
    m.readRun p s.length = some s := by
  rw [Memory.readRun, if_pos h.length_le, List.prefix_iff_eq_take.mp h |>.symm]

end Memory

/-! ## Terminated strings -/

section Strings

variable [Zero α]

/-- The object holds the characters of `s`, none of them zero, and then a zero. -/
def Memory.StringAt (m : Memory α) (p : Pointer) (s : List α) : Prop :=
  0 ∉ s ∧ m.HoldsAt p (s ++ [0])

/-- Comparing the characters and the terminator decides it. -/
instance [DecidableEq α] (m : Memory α) (p : Pointer) (s : List α) :
    Decidable (m.StringAt p s) :=
  inferInstanceAs (Decidable (_ ∧ _))

/-- A pointer to a terminated string: a zero follows in the same object. -/
structure CStr (m : Memory α) where
  /-- The address of the first character. -/
  ptr : Pointer
  /-- The terminator lies in the designated object. -/
  terminated : 0 ∈ m.after ptr

namespace CStr

variable {m : Memory α}

/-- A string has at least its terminator. -/
theorem after_ne_nil (v : CStr m) : m.after v.ptr ≠ [] :=
  List.ne_nil_of_mem v.terminated

/-- The character a string pointer designates. -/
def deref (v : CStr m) : α := (m.after v.ptr).head v.after_ne_nil

/-- What is behind a string starts with its first character. -/
theorem after_eq_cons (v : CStr m) : m.after v.ptr = v.deref :: m.after (v.ptr + 1) := by
  rw [Memory.after_add, List.drop_one, deref, List.cons_head_tail]

/-- The next character of a string that has not ended. -/
def next (v : CStr m) (h : v.deref ≠ 0) : CStr m where
  ptr := v.ptr + 1
  terminated := by
    have hmem := v.terminated
    rw [v.after_eq_cons, List.mem_cons] at hmem
    exact hmem.resolve_left fun h0 => h h0.symm

variable [DecidableEq α]

/-- The characters before the terminator. -/
def chars (v : CStr m) : List α := (m.after v.ptr).takeWhile (· ≠ 0)

/-- A string that starts with the terminator has no characters. -/
theorem chars_of_end {v : CStr m} (h : v.deref = 0) : v.chars = [] := by
  rw [chars, v.after_eq_cons, List.takeWhile_cons, if_neg (by simp [h])]

/-- Any other string has its first character and those of the rest. -/
theorem chars_of_next {v : CStr m} (h : v.deref ≠ 0) : v.chars = v.deref :: (v.next h).chars := by
  rw [chars, v.after_eq_cons, List.takeWhile_cons, if_pos (by simpa using h)]
  rfl

/-- Advancing a string pointer shortens the string, the measure of every string loop. -/
theorem chars_next_length_lt {v : CStr m} (h : v.deref ≠ 0) :
    (v.next h).chars.length < v.chars.length := by
  rw [chars_of_next h]
  exact Nat.lt_succ_self _

/-- The characters of a string contain no terminator. -/
theorem zero_not_mem_chars (v : CStr m) : 0 ∉ v.chars := by
  intro h
  simpa using List.mem_takeWhile_imp h

/-- A string pointer finds exactly its characters in memory. -/
theorem stringAt_chars (v : CStr m) : m.StringAt v.ptr v.chars := by
  refine ⟨v.zero_not_mem_chars, ?_⟩
  have hsplit := List.takeWhile_append_dropWhile (p := (· ≠ (0 : α))) (l := m.after v.ptr)
  cases hrest : (m.after v.ptr).dropWhile (· ≠ 0) with
  | nil =>
    have hmem := v.terminated
    rw [← hsplit, hrest, List.append_nil] at hmem
    exact absurd hmem v.zero_not_mem_chars
  | cons c rest =>
    have hc : c = 0 := by
      have hne : (m.after v.ptr).dropWhile (· ≠ 0) ≠ [] := by rw [hrest]; simp
      have hhead := List.head_dropWhile_not _ hne
      simp only [hrest, List.head_cons] at hhead
      simpa using hhead
    refine ⟨rest, ?_⟩
    rw [← hsplit, hrest, hc, List.append_assoc]
    rfl

end CStr

variable {m : Memory α} {p : Pointer} {s : List α}

/-- The zero that ends a string in memory. -/
theorem Memory.StringAt.zero_mem (h : m.StringAt p s) : 0 ∈ m.after p :=
  h.2.subset (by simp)

/-- The string pointer to a string found in memory. -/
def Memory.StringAt.cstr (h : m.StringAt p s) : CStr m := ⟨p, h.zero_mem⟩

/-- A string pointer has the characters that memory holds at its address. -/
theorem Memory.StringAt.chars_eq [DecidableEq α] {v : CStr m} (h : m.StringAt v.ptr s) :
    v.chars = s := by
  obtain ⟨hs, rest, hrest⟩ := h
  have hall : ∀ c ∈ s, decide (c ≠ 0) = true := by
    intro c hc
    simpa using ne_of_mem_of_not_mem hc hs
  rw [CStr.chars, ← hrest, List.append_assoc, List.takeWhile_append_of_pos hall]
  simp

/-- A suffix of a string is the string further on. -/
theorem Memory.StringAt.add {t : List α} (h : m.StringAt p (s ++ t)) :
    m.StringAt (p + s.length) t := by
  obtain ⟨hzero, hholds⟩ := h
  refine ⟨fun ht => hzero (List.mem_append_right _ ht), ?_⟩
  rw [List.append_assoc] at hholds
  exact hholds.add

/-- The distance from a pointer to the first zero of its object, when there is one. -/
def strlen [DecidableEq α] (m : Memory α) (p : Pointer) : Option ℕ :=
  if 0 ∈ m.after p then some ((m.after p).idxOf 0) else none

/-- The length of a string found in memory. -/
theorem Memory.StringAt.strlen [DecidableEq α] (h : m.StringAt p s) :
    strlen m p = some s.length := by
  rw [CMemory.strlen, if_pos h.zero_mem]
  obtain ⟨hs, rest, hrest⟩ := h
  rw [← hrest, List.append_assoc, List.idxOf_append_of_notMem hs]
  simp

end Strings

end CMemory
