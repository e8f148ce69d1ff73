import TypeIndex.Compilers

/-!
# A check of a type's namespace

A function that runs at compile time compares the start of a raw name with the name of a
namespace, behind the keyword that some compilers print in front of it. It reads no
further than the first difference, and finds out, where the configuration fits the compiler,
whether the name of the type starts with the namespace and two colons.
-/

namespace TypeIndex

open CMemory

variable {m : CharMemory}

/-- `starts_with`: the loop over the characters of the second string. -/
def startsWith (m : CharMemory) : Pointer → List UInt8 → Option Bool
  | _, [] => some true
  | name, c :: ns => do
    let d ← m.read name
    if d ≠ c then return false else startsWith m (name + 1) ns

/-- The raw name behind a keyword. -/
def skipKeyword (m : CharMemory) (name : Pointer) : Option Pointer := do
  if ← startsWith m name (literal "class ") then return name + (literal "class ").length
  else if ← startsWith m name (literal "struct ") then return name + (literal "struct ").length
  else return name

/-- `in_namespace`. The second comparison is made only if the first one succeeds. -/
def inNamespace (rawName : CStr m) (ns : List UInt8) : Option Bool := do
  let name ← skipKeyword m rawName.ptr
  if ← startsWith m name ns then startsWith m (name + ns.length) (literal "::") else return false

/-- The text behind a keyword. -/
def withoutKeyword (s : List UInt8) : List UInt8 :=
  if literal "class " <+: s then s.drop (literal "class ").length
  else if literal "struct " <+: s then s.drop (literal "struct ").length
  else s

/-! ## Reads -/

/-- The loop decides whether one string starts with another one, and reads no further than
its terminator. -/
theorem startsWith_eq {name : Pointer} {s ns : List UInt8} (h : m.StringAt name s)
    (hns : 0 ∉ ns) : startsWith m name ns = some (decide (ns <+: s)) := by
  induction ns generalizing name s with
  | nil => simp [startsWith]
  | cons c ns ih =>
    rw [List.mem_cons, not_or] at hns
    cases s with
    | nil =>
      have hread : m.read name = some 0 := h.2.read_head
      simp [startsWith, hread, hns.1]
    | cons d s =>
      have hread : m.read name = some d := h.2.read_head
      have htail : m.StringAt (name + 1) s := Memory.StringAt.add (s := [d]) h
      rw [startsWith, hread, ih htail hns.2]
      by_cases hdc : d = c
      · simp [hdc, List.cons_prefix_cons]
      · have hcd : c ≠ d := fun h => hdc h.symm
        simp [hdc, hcd, List.cons_prefix_cons]

/-- What follows a prefix of a string is a string further on. -/
theorem stringAt_drop {name : Pointer} {s pat : List UInt8} (h : m.StringAt name s)
    (hpat : pat <+: s) : m.StringAt (name + pat.length) (s.drop pat.length) := by
  obtain ⟨t, rfl⟩ := hpat
  rw [List.drop_left]
  exact h.add

/-- The keyword is skipped. -/
theorem skipKeyword_eq {name : Pointer} {s : List UInt8} (h : m.StringAt name s) :
    ∃ start, skipKeyword m name = some start ∧ m.StringAt start (withoutKeyword s) := by
  unfold skipKeyword withoutKeyword
  rw [startsWith_eq h (by decide), startsWith_eq h (by decide)]
  by_cases hclass : literal "class " <+: s
  · refine ⟨name + (literal "class ").length, by simp [hclass], ?_⟩
    rw [if_pos hclass]
    exact stringAt_drop h hclass
  · by_cases hstruct : literal "struct " <+: s
    · refine ⟨name + (literal "struct ").length, by simp [hclass, hstruct], ?_⟩
      rw [if_neg hclass, if_pos hstruct]
      exact stringAt_drop h hstruct
    · refine ⟨name, by simp [hclass, hstruct], ?_⟩
      rw [if_neg hclass, if_neg hstruct]
      exact h

/-- The check compares the raw name behind the keyword with the name of the namespace and
two colons, and reads no further than the terminator. -/
theorem inNamespace_eq (rawName : CStr m) {ns : List UInt8} (hns : 0 ∉ ns) :
    inNamespace rawName ns =
      some (decide (ns ++ literal "::" <+: withoutKeyword rawName.chars)) := by
  obtain ⟨start, hstart, hstring⟩ := skipKeyword_eq rawName.stringAt_chars
  rw [inNamespace, hstart]
  simp only [Option.bind_eq_bind, Option.bind_some, startsWith_eq hstring hns, decide_eq_true_eq]
  by_cases hprefix : ns <+: withoutKeyword rawName.chars
  · rw [if_pos hprefix, startsWith_eq (stringAt_drop hstring hprefix) (by decide)]
    obtain ⟨t, ht⟩ := hprefix
    rw [← ht, List.drop_left]
    exact congrArg some (decide_eq_decide.mpr (List.prefix_append_right_inj ns).symm)
  · have hlong : ¬ ns ++ literal "::" <+: withoutKeyword rawName.chars := fun h =>
      hprefix ((List.prefix_append _ _).trans h)
    rw [if_neg hprefix, decide_eq_false hlong]
    rfl

/-! ## Names on a compiler -/

/-- A text without some character starts a longer text as it starts the part in front of
that character. -/
theorem prefix_append_cons {pat s t : List UInt8} {c : UInt8} (hc : c ∉ pat) :
    pat <+: s ++ c :: t ↔ pat <+: s := by
  refine ⟨fun h => ?_, fun h => h.trans (List.prefix_append _ _)⟩
  rcases List.prefix_or_prefix_of_prefix h (List.prefix_append s (c :: t)) with hs | ⟨r, rfl⟩
  · exact hs
  · rw [List.prefix_append_right_inj] at h
    cases r with
    | nil => rw [List.append_nil]
    | cons d r =>
      obtain ⟨rfl, -⟩ := List.cons_prefix_cons.mp h
      exact absurd (List.mem_append_right s List.mem_cons_self) hc

/-- The texts that the check looks for have no brackets. -/
theorem not_mem_of_bracket {bracket : UInt8} (h : bracket ∈ literal ">]") :
    bracket ∉ literal "class " ∧ bracket ∉ literal "struct " ∧ bracket ∉ literal "::" := by
  rcases List.mem_pair.mp h with rfl | rfl
  · exact ⟨by decide, by decide, by decide⟩
  · exact ⟨by decide, by decide, by decide⟩

/-- A bracket behind the name does not change where it starts. -/
theorem withoutKeyword_append {s t : List UInt8} {c : UInt8} (hc : c ∈ literal ">]") :
    withoutKeyword (s ++ c :: t) = withoutKeyword s ++ c :: t := by
  obtain ⟨hclass, hstruct, -⟩ := not_mem_of_bracket hc
  unfold withoutKeyword
  rw [if_congr (prefix_append_cons hclass) rfl rfl, if_congr (prefix_append_cons hstruct) rfl rfl]
  split_ifs with h h'
  · exact List.drop_append_of_le_length h.length_le
  · exact List.drop_append_of_le_length h'.length_le
  · rfl

/-- Where the configuration fits the texts of the compiler and the name does not contain the
marker of a compiler that prints it twice, the check finds out whether the name of the type,
behind a keyword, starts with the namespace and two colons, for every namespace without
brackets. -/
theorem compiler_inNamespace (c : Compiler) (m : CharMemory) (untilRuntime : Pointer)
    {texts : List UInt8 × List UInt8} {name : List UInt8} (rawName : CStr m)
    (h : c.Returns m untilRuntime texts name rawName.ptr) (hfits : c.Fits texts)
    (hzeroName : 0 ∉ name) (hmarker : c.printsTwice = true → findFirst clangMarker name = none)
    (ns : List UInt8) (hzero : 0 ∉ ns) (hbrackets : ∀ bracket ∈ literal ">]", bracket ∉ ns) :
    inNamespace rawName ns =
      some (decide (ns ++ literal "::" <+: withoutKeyword name)) := by
  have hchars := (h.stringAt hzeroName).chars_eq
  obtain ⟨post, hraw, -, hbracket⟩ := h.exists_rawName_eq hfits hmarker
  rw [inNamespace_eq rawName hzero, hchars, hraw]
  rcases hbracket with rfl | ⟨bracket, rest, rfl, hmem⟩
  · rw [List.append_nil]
  · have hns : bracket ∉ ns ++ literal "::" := by
      rw [List.mem_append, not_or]
      exact ⟨hbrackets bracket hmem, (not_mem_of_bracket hmem).2.2⟩
    rw [withoutKeyword_append hmem]
    simp only [prefix_append_cons hns]

/-- A memory with what MSVC prints for a structure in a namespace. -/
def namespaceMemory : CharMemory := fun _ =>
  literal "const char *__cdecl boost::detail::ctti<struct ns::foo>::n(void) noexcept" ++ [0]

/-- The name starts behind the text that is skipped. -/
theorem namespaceMemory_struct : namespaceMemory.StringAt ⟨0, 40⟩
    (literal "struct ns::foo" ++ literal ">::n(void) noexcept") := by decide

/-- The name of the namespace has no brackets. -/
theorem namespaceMemory_brackets : ∀ bracket ∈ literal ">]", bracket ∉ literal "ns" := by
  intro bracket h
  rcases List.mem_pair.mp h with rfl | rfl
  · decide
  · decide

/-- The check for the namespace `ns` on MSVC. -/
theorem compiler_inNamespace_msvc :
    inNamespace namespaceMemory_struct.cstr (literal "ns") =
      some (decide (literal "ns" ++ literal "::" <+: withoutKeyword (literal "struct ns::foo"))) :=
  compiler_inNamespace .msvc namespaceMemory ⟨0, 0⟩ namespaceMemory_struct.cstr
    (.once ⟨0, 0⟩ rfl rfl (fun _ h => Option.some.inj h) (by decide) (by rfl)) (by decide)
    (by decide) (by decide) (literal "ns") (by decide) namespaceMemory_brackets

end TypeIndex
