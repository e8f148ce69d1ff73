import TypeIndex.CMemory.Occurrence
import TypeIndex.CttiTypeIndex
import Mathlib.Data.List.DropRight

/-!
# The index over `std::type_info`

`stl_type_index` holds the address of a `std::type_info` object. Equality, order
and hash code are those of the object, or compare the raw names on platforms where
one type has several objects. The readable name is the demangled one, from which
the decoration by `detail::cvr_saver` is removed.
-/

namespace TypeIndex

open CMemory

/-- What an implementation provides of `std::type_info`. The elements of `Info` are
the objects, of which several may describe one type. -/
structure TypeInfoClass (m : CharMemory) (Info : Type*) where
  /-- The member `name`. -/
  name : Info → CStr m
  /-- The member `raw_name` of MSVC. -/
  rawName : Info → CStr m
  /-- The operator `==`. -/
  eq : Info → Info → Bool
  /-- The member `before`. -/
  before : Info → Info → Bool
  /-- The member `hash_code`. -/
  hashCode : Info → ℕ

/-- The settings that the class is compiled with. -/
structure StlBuild where
  /-- `_MSC_VER`. -/
  msvc : Bool
  /-- `BOOST_TYPE_INDEX_CLASSINFO_COMPARE_BY_NAMES`. -/
  compareByNames : Bool
  /-- `std::strcmp`. -/
  strcmp : Strcmp

/-- An `stl_type_index`. -/
structure StlTypeIndex (Info : Type*) where
  /-- The object that the index points to. -/
  data : Info

/-- The start of the name of a `detail::cvr_saver`. -/
def cvrSaverName : List UInt8 := literal "boost::typeindex::detail::cvr_saver<"

/-- The bracket that closes a list of template arguments. -/
def closingBracket : UInt8 := 62

/-! ## The scanning loops -/

/-- The loop that skips leading spaces. -/
def trimLeadingSpaces (m : CharMemory) (b : Pointer) : Option Pointer :=
  match _ : m.read b with
  | none => none
  | some c => if c = space then trimLeadingSpaces m (b + 1) else some b
termination_by (m.after b).length
decreasing_by exact Memory.after_add_one_length_lt ‹_›

/-- The loop that moves back to the last closing bracket. -/
def skipClosingBracket (m : CharMemory) (b e : Pointer) : Option Pointer :=
  if _ : b.offset < e.offset then do
    let c ← m.read e
    if c ≠ closingBracket then skipClosingBracket m b (e - 1) else some e
  else some e
termination_by e.offset
decreasing_by
  change e.offset - 1 < e.offset
  omega

/-- The loop that moves back over trailing spaces. -/
def skipTrailingSpaces (m : CharMemory) (b e : Pointer) : Option Pointer :=
  if _ : b.offset < e.offset then do
    let c ← m.read (e - 1)
    if c = space then skipTrailingSpaces m b (e - 1) else some e
  else some e
termination_by e.offset
decreasing_by
  change e.offset - 1 < e.offset
  omega

/-- The bounds of the readable name inside a demangled name of the given length. -/
def undecorate (m : CharMemory) (first : Pointer) (len : ℕ) : Option (Pointer × Pointer) := do
  let last := first + len
  if cvrSaverName.length < len then
    match ← strstr m first cvrSaverName with
    | none => return (first, last)
    | some b =>
      let b ← trimLeadingSpaces m (b + cvrSaverName.length)
      let e ← skipClosingBracket m b (last - 1)
      let e ← skipTrailingSpaces m b e
      return if b.offset < e.offset then (b, e) else (first, last)
  else return (first, last)

namespace StlTypeIndex

variable {m : CharMemory} {Info : Type*}

/-- The converting constructor from a `std::type_info`. -/
def ofTypeInfo (data : Info) : StlTypeIndex Info := ⟨data⟩

/-- The member `type_info`. -/
def typeInfo (self : StlTypeIndex Info) : Info := self.data

/-- The member `raw_name`. -/
def rawName (build : StlBuild) (C : TypeInfoClass m Info) (self : StlTypeIndex Info) : CStr m :=
  if build.msvc then C.rawName self.data else C.name self.data

/-- The member `name`. -/
def name (C : TypeInfoClass m Info) (self : StlTypeIndex Info) : CStr m := C.name self.data

/-- The readable name, an exception, or no result after an invalid read. The
demangler returns a null pointer or a terminated string. -/
def prettyName (C : TypeInfoClass m Info) (demangle : CStr m → Option (CStr m))
    (self : StlTypeIndex Info) : Option (Except String (List UInt8)) :=
  match demangle (C.name self.data) with
  | none => some (.error "Type name demangling failed")
  | some demangledName => do
    let len ← strlen m demangledName.ptr
    let (first, last) ← undecorate m demangledName.ptr len
    return .ok (← m.readRun first (last.offset - first.offset))

/-- The member `hash_code`. -/
def hashCode (C : TypeInfoClass m Info) (self : StlTypeIndex Info) : ℕ := C.hashCode self.data

/-- The member `equal`. -/
def equal (build : StlBuild) (C : TypeInfoClass m Info) (self rhs : StlTypeIndex Info) : Bool :=
  let left := self.rawName build C
  let right := rhs.rawName build C
  if build.compareByNames then
    decide (left.ptr = right.ptr) || decide (build.strcmp.run m left right = 0)
  else C.eq self.data rhs.data

/-- The member `before`. -/
def before (build : StlBuild) (C : TypeInfoClass m Info) (self rhs : StlTypeIndex Info) : Bool :=
  let left := self.rawName build C
  let right := rhs.rawName build C
  if build.compareByNames then
    decide (left.ptr ≠ right.ptr) && decide (build.strcmp.run m left right < 0)
  else C.before self.data rhs.data

/-- What `stl_type_index` offers to its facade. -/
def facade (build : StlBuild) (C : TypeInfoClass m Info) :
    TypeIndexFacade m (StlTypeIndex Info) Info where
  rawName := rawName build C
  equal := equal build C
  before := before build C
  hashCode self := some (hashCode C self)
  ofTypeInfo := ofTypeInfo

end StlTypeIndex

/-! ## What the loops compute -/

section Loops

variable {m : CharMemory} {b e : Pointer} {c : UInt8} {s : List UInt8}

/-- One step of the loop over leading spaces. -/
theorem trimLeadingSpaces_step (h : m.read b = some c) :
    trimLeadingSpaces m b = if c = space then trimLeadingSpaces m (b + 1) else some b := by
  rw [trimLeadingSpaces]
  split
  · simp_all
  · simp_all

/-- Leading spaces are skipped; the terminator stops the loop. -/
theorem trimLeadingSpaces_eq (h : m.StringAt b s) :
    trimLeadingSpaces m b = some (b + (s.takeWhile (· = space)).length) := by
  induction s generalizing b with
  | nil => rw [trimLeadingSpaces_step h.2.read_head, if_neg (by decide), List.takeWhile_nil]; rfl
  | cons c s ih =>
    rw [trimLeadingSpaces_step h.2.read_head, List.takeWhile_cons]
    by_cases hc : c = space
    · have htail : m.StringAt (b + 1) s := h.add (s := [c])
      rw [if_pos hc, if_pos (decide_eq_true hc), ih htail, Pointer.add_add, List.length_cons,
        Nat.add_comm]
    · rw [if_neg hc, if_neg (by simpa using hc)]
      rfl

/-- The string goes on behind the leading spaces. -/
theorem stringAt_trimLeadingSpaces (h : m.StringAt b s) :
    m.StringAt (b + (s.takeWhile (· = space)).length) (s.dropWhile (· = space)) := by
  rw [← List.takeWhile_append_dropWhile (p := (· = space)) (l := s)] at h
  exact h.add

/-- The search for the bracket stops at its lower bound. -/
theorem skipClosingBracket_of_le (h : e.offset ≤ b.offset) :
    skipClosingBracket m b e = some e := by
  rw [skipClosingBracket, dif_neg (not_lt.mpr h)]

/-- One step of the search for the bracket. -/
theorem skipClosingBracket_step (hlt : b.offset < e.offset) (h : m.read e = some c) :
    skipClosingBracket m b e =
      if c ≠ closingBracket then skipClosingBracket m b (e - 1) else some e := by
  rw [skipClosingBracket, dif_pos hlt, h]
  rfl

/-- The search starts at the last character. It finds the last bracket behind the
first character, or ends at the first character. -/
theorem skipClosingBracket_eq (h : m.HoldsAt b s) :
    skipClosingBracket m b (b + (s.length - 1)) =
      some (b + ((s.rdropWhile (· ≠ closingBracket)).length - 1)) := by
  induction s using List.reverseRecOn with
  | nil => exact skipClosingBracket_of_le (le_refl _)
  | append_singleton s c ih =>
    have hread : m.read (b + s.length) = some c := h.add.read_head
    rw [List.length_append, List.length_singleton, Nat.add_sub_cancel, List.rdropWhile_concat]
    cases s with
    | nil =>
      rw [skipClosingBracket_of_le (by simp)]
      split <;> simp
    | cons d s =>
      rw [skipClosingBracket_step (by simp) hread]
      by_cases hc : c ≠ closingBracket
      · rw [if_pos hc, if_pos (by simpa using hc), Pointer.add_sub _ (by simp)]
        exact ih ((List.prefix_append _ _).trans h)
      · rw [if_neg hc, if_neg (by simpa using hc), List.length_append, List.length_singleton,
          Nat.add_sub_cancel]

/-- One step of the loop over trailing spaces. -/
theorem skipTrailingSpaces_step (hlt : b.offset < e.offset) (h : m.read (e - 1) = some c) :
    skipTrailingSpaces m b e =
      if c = space then skipTrailingSpaces m b (e - 1) else some e := by
  rw [skipTrailingSpaces, dif_pos hlt, h]
  rfl

/-- The loop over trailing spaces stops at its lower bound. -/
theorem skipTrailingSpaces_of_le (h : e.offset ≤ b.offset) :
    skipTrailingSpaces m b e = some e := by
  rw [skipTrailingSpaces, dif_neg (not_lt.mpr h)]

/-- Trailing spaces are skipped. -/
theorem skipTrailingSpaces_eq (h : m.HoldsAt b s) :
    skipTrailingSpaces m b (b + s.length) = some (b + (s.rdropWhile (· = space)).length) := by
  induction s using List.reverseRecOn with
  | nil => exact skipTrailingSpaces_of_le (le_refl _)
  | append_singleton s c ih =>
    have hback : b + (s ++ [c]).length - 1 = b + s.length := by
      rw [List.length_append, List.length_singleton, Pointer.add_sub _ (by omega),
        Nat.add_sub_cancel]
    have hread : m.read (b + (s ++ [c]).length - 1) = some c := by
      rw [hback]
      exact h.add.read_head
    rw [skipTrailingSpaces_step (by simp) hread, List.rdropWhile_concat]
    by_cases hc : c = space
    · rw [if_pos hc, if_pos (decide_eq_true hc), hback]
      exact ih ((List.prefix_append _ _).trans h)
    · rw [if_neg hc, if_neg (by simpa using hc)]

end Loops

/-! ## The readable name as a function of the demangled name -/

/-- The text before the last bracket, without trailing spaces. -/
def bracketed (behind : List UInt8) : List UInt8 :=
  (behind.rdropWhile (· ≠ closingBracket)).dropLast.rdropWhile (· = space)

/-- The text between the spaces behind a `cvr_saver` and the last bracket. -/
def savedName (d : List UInt8) (k : ℕ) : List UInt8 :=
  bracketed ((d.drop (k + cvrSaverName.length)).dropWhile (· = space))

/-- The readable name for a demangled name: the saved name, unless there is none. -/
def undecorated (d : List UInt8) : List UInt8 :=
  match findFirst cvrSaverName d with
  | none => d
  | some k => if savedName d k = [] then d else savedName d k

/-- A demangled name without the decoration is shown as it is. -/
theorem undecorated_of_none {d : List UInt8} (h : findFirst cvrSaverName d = none) :
    undecorated d = d := by
  unfold undecorated
  rw [h]

/-- One with the decoration shows the name saved, unless that is empty. -/
theorem undecorated_of_some {d : List UInt8} {k : ℕ} (h : findFirst cvrSaverName d = some k) :
    undecorated d = if savedName d k = [] then d else savedName d k := by
  unfold undecorated
  rw [h]

section Undecorate

variable {m : CharMemory} {first : Pointer} {d : List UInt8} {k : ℕ}

/-- A demangled name no longer than the decoration stays as it is. -/
theorem undecorated_of_le (h : d.length ≤ cvrSaverName.length) : undecorated d = d := by
  cases hfind : findFirst cvrSaverName d with
  | none => exact undecorated_of_none hfind
  | some k =>
    have hdrop : d.drop (k + cvrSaverName.length) = [] := List.drop_eq_nil_of_le (by omega)
    have hnil : savedName d k = [] := by
      unfold savedName
      rw [hdrop]
      rfl
    rw [undecorated_of_some hfind, if_pos hnil]

/-- The two backward loops delimit the bracketed text, or end in front of it. -/
theorem scanBack {b : Pointer} {behind : List UInt8} (h : m.StringAt b behind) :
    ∃ e e', skipClosingBracket m b (b + behind.length - 1) = some e ∧
      skipTrailingSpaces m b e = some e' ∧ (b.offset < e'.offset ↔ bracketed behind ≠ []) ∧
      (bracketed behind ≠ [] → m.readRun b (e'.offset - b.offset) = some (bracketed behind)) := by
  by_cases hnil : behind = []
  · subst hnil
    have hback : (b - 1).offset ≤ b.offset := Nat.sub_le _ _
    have hempty : bracketed [] = [] := rfl
    exact ⟨_, _, skipClosingBracket_of_le hback, skipTrailingSpaces_of_le hback,
      iff_of_false (not_lt.mpr hback) (not_not_intro hempty), fun hne => absurd hempty hne⟩
  · have hpos := List.length_pos_iff.mpr hnil
    have hholds : m.HoldsAt b behind := (List.prefix_append _ _).trans h.2
    have hname : m.HoldsAt b ((behind.rdropWhile (· ≠ closingBracket)).dropLast) :=
      ((List.dropLast_prefix _).trans (List.rdropWhile_prefix _ _)).trans hholds
    have hbracketed : m.HoldsAt b (bracketed behind) := (List.rdropWhile_prefix _ _).trans hname
    have hstart := skipClosingBracket_eq hholds
    rw [← Pointer.add_sub _ hpos, ← List.length_dropLast] at hstart
    refine ⟨_, _, hstart, skipTrailingSpaces_eq hname, ?_, fun _ => ?_⟩
    · rw [Pointer.add_offset, ← List.length_pos_iff, bracketed]
      omega
    · rw [Pointer.add_offset, Nat.add_sub_cancel_left]
      exact hbracketed.readRun

/-- The text of a string behind an occurrence of the decoration and the spaces. -/
theorem stringAt_behind (h : m.StringAt first d) (hocc : k + cvrSaverName.length ≤ d.length) :
    ∃ b, trimLeadingSpaces m (first + k + cvrSaverName.length) = some b ∧
      m.StringAt b ((d.drop (k + cvrSaverName.length)).dropWhile (· = space)) ∧
      first + d.length =
        b + ((d.drop (k + cvrSaverName.length)).dropWhile (· = space)).length := by
  have hsplit := h
  rw [← List.take_append_drop (k + cvrSaverName.length) d] at hsplit
  have hdrop := hsplit.add
  rw [List.length_take_of_le hocc, ← Pointer.add_add] at hdrop
  refine ⟨_, trimLeadingSpaces_eq hdrop, stringAt_trimLeadingSpaces hdrop, ?_⟩
  have hlen := congrArg List.length (List.takeWhile_append_dropWhile (p := (· = space))
    (l := d.drop (k + cvrSaverName.length)))
  rw [List.length_append, List.length_drop] at hlen
  rw [Pointer.add_add, Pointer.add_add, Pointer.add_add, Pointer.add_right_inj]
  omega

/-- The bounds computed by the scan delimit the undecorated name, and every read of
the scan lies inside the demangled name. -/
theorem undecorate_eq (h : m.StringAt first d) :
    ∃ first' last', undecorate m first d.length = some (first', last') ∧
      m.readRun first' (last'.offset - first'.offset) = some (undecorated d) := by
  have hwhole : m.readRun first ((first + d.length).offset - first.offset) = some d := by
    have hholds : m.HoldsAt first d := (List.prefix_append _ _).trans h.2
    rw [Pointer.add_offset, Nat.add_sub_cancel_left]
    exact hholds.readRun
  by_cases hlen : cvrSaverName.length < d.length
  · have hsearch := h.strstr cvrSaverName
    cases hfind : findFirst cvrSaverName d with
    | none =>
      refine ⟨first, first + d.length, ?_, by rw [undecorated_of_none hfind]; exact hwhole⟩
      rw [undecorate, if_pos hlen, hsearch, hfind]
      rfl
    | some k =>
      have hocc := (findFirst_eq_some.mp hfind).1.add_length_le (by decide)
      obtain ⟨b, htrim, hbehind, hlast⟩ := stringAt_behind h hocc
      obtain ⟨e, e', hbracket, hspaces, hlt, hread⟩ := scanBack hbehind
      rw [← hlast] at hbracket
      have hundecorate : undecorate m first d.length =
          some (if b.offset < e'.offset then (b, e') else (first, first + d.length)) := by
        rw [undecorate, if_pos hlen, hsearch, hfind]
        simp only [Option.map_some, Option.bind_eq_bind, Option.bind_some, htrim, hbracket,
          hspaces, Option.pure_def]
      by_cases hempty : savedName d k = []
      · refine ⟨first, first + d.length, ?_, ?_⟩
        · rw [hundecorate, if_neg fun h => hlt.mp h hempty]
        · rw [undecorated_of_some hfind, if_pos hempty]
          exact hwhole
      · refine ⟨b, e', ?_, ?_⟩
        · rw [hundecorate, if_pos (hlt.mpr hempty)]
        · rw [undecorated_of_some hfind, if_neg hempty]
          exact hread hempty
  · refine ⟨first, first + d.length, ?_, ?_⟩
    · rw [undecorate, if_neg hlen]
      rfl
    · rw [undecorated_of_le (not_lt.mp hlen)]
      exact hwhole

/-- The readable name is the undecorated demangled name, for every demangled name. -/
theorem StlTypeIndex.prettyName_eq {Info : Type*} {C : TypeInfoClass m Info}
    {demangle : CStr m → Option (CStr m)} {self : StlTypeIndex Info} {demangledName : CStr m}
    (h : demangle (C.name self.data) = some demangledName) :
    self.prettyName C demangle = some (.ok (undecorated demangledName.chars)) := by
  have hstring := demangledName.stringAt_chars
  obtain ⟨first, last, hbounds, hread⟩ := undecorate_eq hstring
  rw [prettyName, h]
  simp only [hstring.strlen, hbounds, hread, Option.bind_eq_bind, Option.bind_some,
    Option.pure_def]

end Undecorate

end TypeIndex
