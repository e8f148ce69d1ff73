import TypeIndex.ClangNames
import TypeIndex.GccNames

/-!
# The configurations of the compilers

A signature shows the type's name between two texts that depend on the compiler, or
twice on Clang. Compilers that copy the name character by character print the index of
the character between two texts in front of it. A configuration of `skip` that fits the
texts shows and hashes the name, any other one does not. Of the texts documented beside
`skip`, those with an index do not fit and the others do.
-/

namespace TypeIndex

open CMemory

/-- Compilers that print the name twice. -/
def Compiler.printsTwice (c : Compiler) : Bool := c = .appleClang || c = .clang

/-- Compilers on which the name is copied by the steps `s<I>()`. -/
def Compiler.copies (c : Compiler) : Bool := c = .edgCxx14 || c = .gccBefore7 || c = .gcc

/-- The two texts in the signature of `n()` around the name, or in that of a step `s<I>()`
around the index, as the comments beside `skip` have them. -/
def Compiler.documentedTexts : Compiler → Option (List UInt8 × List UInt8)
  | .msvcNoNoexcept =>
    some (literal "const char *__cdecl boost::detail::ctti<", literal ">::n(void)")
  | .msvc =>
    some (literal "const char *__cdecl boost::detail::ctti<", literal ">::n(void) noexcept")
  | .appleClang | .clang => some (clangPrefix, clangSeparator)
  | .clang30 => some (literal "static const char *boost::detail::ctti<", literal ">::n()")
  | .edgCxx14 =>
    some (literal "static cha boost::detail::ctti<T>::s() [with I = ", literal "U, T = ")
  | .edg => some (literal "static const char *boost::detail::ctti<T>::n() [with T = ", literal "]")
  | .gccBefore7 =>
    some (literal "static constexpr char boost::detail::ctti<T>::s() [with unsigned int I = ",
      literal "u; \x7d T = ")
  | .gcc =>
    some (literal "static constexpr char boost::detail::ctti<T>::s() [with unsigned int I = ",
      literal "; \x7d T = ")
  | .gccCxx11 =>
    some (literal "static const char* boost::detail::ctti<T>::n() [with T = ", literal "]")
  | .ghs => some (literal "static const char *boost::detail::ctti<T>::n() [with T = ", literal "]")
  | .other => none

/-- The signature of a step, with the index between two texts and the name behind them. -/
def stepSignature (pre between name : List UInt8) (I : ℕ) : List UInt8 :=
  pre ++ (decimal I ++ (between ++ (name ++ literal "]")))

/-- The address that `n()` returns for a type with a name. A compiler that is not known may
have any texts, and so may one that copies the name, if its index stands in the skipped part
and the signature of `n<0>()` is longer than that of `s<0>()` by `"const *"`. -/
inductive Compiler.Returns (c : Compiler) (m : CharMemory) (untilRuntime : Pointer)
    (texts : List UInt8 × List UInt8) (name : List UInt8) (start : Pointer) : Prop
  /-- A pointer behind the skipped part. -/
  | once (signature : Pointer) (copies : c.copies = false) (twice : c.printsTwice = false)
    (known : ∀ documented ∈ c.documentedTexts, texts = documented)
    (holds : m.StringAt signature (texts.1 ++ name ++ texts.2))
    (returned : cttiN (skip c untilRuntime) m signature (texts.1 ++ name ++ texts.2).length =
      some start)
  /-- A pointer behind the first marker. -/
  | twice (signature : Pointer) (twice : c.printsTwice = true)
    (known : texts = (clangPrefix, clangSeparator))
    (holds : m.StringAt signature (clangSignature name))
    (marker : m.HoldsAt untilRuntime clangMarker)
    (returned : cttiN (skip c untilRuntime) m signature (clangSignature name).length = some start)
  /-- The array of the characters copied by steps whose indices have at most seven digits. -/
  | copied {signature data : List UInt8} (copies : c.copies = true)
    (behind : texts.1.length + 1 ≤ c.skipArguments.1) (terminated : 0 ∉ texts.2)
    (longer : signature.length = (stepSignature texts.1 texts.2 name 0).length + 7)
    (small : texts.1.length + 1 + texts.2.length + name.length + 1 < 10 ^ 7)
    (returned : gccN (skip c untilRuntime) signature (stepSignature texts.1 texts.2 name) =
      some data)
    (holds : m.HoldsAt start data)

/-- The configuration skips exactly the texts in front of the name, an index of one digit
included, and behind it. -/
def Compiler.Fits (c : Compiler) (texts : List UInt8 × List UInt8) : Prop :=
  if c.copies then texts.1.length + 1 + texts.2.length = c.skipArguments.1
  else texts.1.length = c.skipArguments.1 ∧
    (c.printsTwice = false → texts.2.length = c.skipArguments.2.1)

/-- Comparing lengths decides it. -/
instance (c : Compiler) (texts : List UInt8 × List UInt8) : Decidable (c.Fits texts) := by
  delta Compiler.Fits
  infer_instance

/-- The raw name on a compiler. -/
def Compiler.rawName (c : Compiler) (texts : List UInt8 × List UInt8) (name : List UInt8) :
    List UInt8 :=
  if c.copies then
    (texts.2 ++ (name ++ literal "]")).drop (c.skipArguments.1 - (texts.1.length + 1))
  else if c.printsTwice then clangRawName name
  else (texts.1 ++ name ++ texts.2).drop c.skipArguments.1

/-- Of the documented texts exactly those with an index do not fit. -/
theorem Compiler.fits_documented_iff {c : Compiler} {texts : List UInt8 × List UInt8}
    (h : c.documentedTexts = some texts) : c.Fits texts ↔ c.copies = false := by
  cases c <;> cases h <;> decide

/-! ## Steps -/

/-- A sum of `std::size_t` values that does not wrap. -/
theorem sizeAdd_of_lt {a b : ℕ} (h : a + b < 2 ^ 64) : sizeAdd a b = a + b := Nat.mod_eq_of_lt h

section Steps

variable {c : Compiler} {pre between name signature : List UInt8} {untilRuntime : Pointer}

/-- A step for an index of at most seven digits reads a character behind the digits, which
does not depend on their number. -/
theorem cttiStep_stepSignature (between name : List UInt8) {I : ℕ} (hpre : pre.length + 1 ≤ I)
    (hI : I < 10 ^ 7) : cttiStep (stepSignature pre between name I) I =
      (between ++ (name ++ literal "]") ++ [0])[I - (pre.length + 1)]? := by
  have hoffset := stepOffset_add_one hI
  have hindex : uintAdd I (stepOffset I) =
      pre.length + ((decimal I).length + (I - (pre.length + 1))) := by
    rw [uintAdd_of_lt (stepIndex_lt hI)]
    omega
  rw [cttiStep, hindex, stepSignature]
  simp only [List.append_assoc]
  rw [List.getElem?_append_right (Nat.le_add_right _ _), Nat.add_sub_cancel_left,
    List.getElem?_append_right (Nat.le_add_right _ _), Nat.add_sub_cancel_left]

/-- Such a configuration skips one character at the end and does not search. -/
theorem skip_of_copies (hc : c.copies = true) (untilRuntime : Pointer) :
    (skip c untilRuntime).sizeAtBegin = c.skipArguments.1 ∧
      (skip c untilRuntime).sizeAtEnd = 1 ∧ (skip c untilRuntime).untilRuntimeLength = 0 := by
  cases c <;> first | exact ⟨rfl, rfl, rfl⟩ | cases hc

/-- It skips less than a hundred characters at the start. -/
theorem skipArguments_lt (c : Compiler) : c.skipArguments.1 < 100 := by
  cases c <;> decide

/-- The length of the signature of the first step. -/
theorem length_stepSignature_zero (pre between name : List UInt8) :
    (stepSignature pre between name 0).length =
      pre.length + 1 + between.length + name.length + 1 := by
  have hdigit : (decimal 0).length = 1 := rfl
  have hend : (literal "]").length = 1 := rfl
  rw [stepSignature]
  simp only [List.length_append, hdigit, hend]
  omega

/-- The size of the signature of `n<0>()`. -/
theorem gccSize_of_longer
    (hlonger : signature.length = (stepSignature pre between name 0).length + 7)
    (hsmall : pre.length + 1 + between.length + name.length + 1 < 10 ^ 7) :
    gccSize signature = pre.length + 1 + between.length + name.length + 9 := by
  rw [gccSize, hlonger, length_stepSignature_zero, Nat.mod_eq_of_lt (by omega)]

/-- The length check asks for a name, or a rest of the text, in front of the bracket. -/
theorem gccLengthCheck_iff (untilRuntime : Pointer) (hc : c.copies = true)
    (hsize : gccSize signature = pre.length + 1 + between.length + name.length + 9) :
    gccLengthCheck (skip c untilRuntime) (gccSize signature) = true ↔
      c.skipArguments.1 ≤ pre.length + 1 + between.length + name.length := by
  obtain ⟨hbegin, hend, -⟩ := skip_of_copies hc untilRuntime
  have hlt := skipArguments_lt c
  have hconst : sizeofConstPointer = 8 := rfl
  have hskips : sizeAdd c.skipArguments.1 1 = c.skipArguments.1 + 1 := sizeAdd_of_lt (by omega)
  have hsum : sizeAdd (c.skipArguments.1 + 1) 8 = c.skipArguments.1 + 1 + 8 :=
    sizeAdd_of_lt (by omega)
  rw [gccLengthCheck, decide_eq_true_eq, hsize, hbegin, hend, hconst, hskips, hsum,
    sizeSub_of_le (by omega)]
  omega

/-- The indices of the characters copied, down to the terminator. -/
theorem gccIndices_of_size (untilRuntime : Pointer) (hc : c.copies = true)
    (hsize : gccSize signature = pre.length + 1 + between.length + name.length + 9)
    (hsmall : pre.length + 1 + between.length + name.length + 1 < 10 ^ 7)
    (hreach : c.skipArguments.1 ≤ pre.length + 1 + between.length + name.length) :
    gccIndexCount (skip c untilRuntime) (gccSize signature) =
        pre.length + 1 + between.length + name.length + 2 - c.skipArguments.1 ∧
      gccIndices (skip c untilRuntime) (gccSize signature) = List.range' c.skipArguments.1
        (pre.length + 1 + between.length + name.length + 2 - c.skipArguments.1) := by
  obtain ⟨hbegin, -, -⟩ := skip_of_copies hc untilRuntime
  have hconst : sizeofConstPointer = 8 := rfl
  have hrest : sizeSub (pre.length + 1 + between.length + name.length + 9) 8 =
      pre.length + 1 + between.length + name.length + 1 := by
    rw [sizeSub_of_le (by omega)]
    omega
  have hcount : gccIndexCount (skip c untilRuntime) (gccSize signature) =
      pre.length + 1 + between.length + name.length + 2 - c.skipArguments.1 := by
    rw [gccIndexCount, hsize, hbegin, hconst, hrest, sizeAdd_of_lt (by omega),
      sizeSub_of_le (by omega)]
  refine ⟨hcount, ?_⟩
  rw [gccIndices, hcount, hbegin]
  exact makeIndexSeqImpl_eq _ _ (by omega) (by omega)

/-- Steps that read the characters of a text one after the other copy the rest of the text. -/
theorem cttiImpl_eq_drop {stepSignature : ℕ → List UInt8} {text : List UInt8} {first k : ℕ}
    (h : ∀ j, (hj : k + j < text.length) →
      cttiStep (stepSignature (first + j)) (first + j) = some text[k + j]) :
    cttiImpl stepSignature (List.range' first (text.length - k)) = some (text.drop k) := by
  rw [cttiImpl_eq_map]
  · congr 1
    apply List.ext_getElem
    · rw [List.length_map, List.length_range', List.length_drop]
    · intro j hj _
      rw [List.length_map, List.length_range'] at hj
      rw [List.getElem_map, List.getElem_range', Nat.one_mul, h j (by omega), Option.getD_some,
        List.getElem_drop]
  · intro I hI
    obtain ⟨hle, hlt⟩ := List.mem_range'_1.mp hI
    have hread := h (I - first) (by omega)
    rw [Nat.add_sub_of_le hle] at hread
    exact ⟨_, hread⟩

/-- Where `n<0>()` compiles, the array is what follows the skipped part, with the bracket
and the terminator. -/
theorem gccN_stepSignature (untilRuntime : Pointer) (hc : c.copies = true)
    (hbehind : pre.length + 1 ≤ c.skipArguments.1)
    (hlonger : signature.length = (stepSignature pre between name 0).length + 7)
    (hsmall : pre.length + 1 + between.length + name.length + 1 < 10 ^ 7)
    (hreach : c.skipArguments.1 ≤ pre.length + 1 + between.length + name.length) :
    gccN (skip c untilRuntime) signature (stepSignature pre between name) =
      some ((between ++ (name ++ literal "]") ++ [0]).drop
        (c.skipArguments.1 - (pre.length + 1))) := by
  obtain ⟨hbegin, -, hsearch⟩ := skip_of_copies hc untilRuntime
  have hsize := gccSize_of_longer hlonger hsmall
  have hcheck : gccLengthCheck (skip c untilRuntime) (gccSize signature) = true :=
    (gccLengthCheck_iff untilRuntime hc hsize).mpr hreach
  obtain ⟨hcount, hindices⟩ := gccIndices_of_size untilRuntime hc hsize hsmall hreach
  have hlength : (between ++ (name ++ literal "]") ++ [0]).length =
      between.length + name.length + 2 := by
    have hend : (literal "]").length = 1 := rfl
    simp only [List.length_append, List.length_singleton, hend]
    omega
  have hrest : pre.length + 1 + between.length + name.length + 2 - c.skipArguments.1 =
      (between ++ (name ++ literal "]") ++ [0]).length -
        (c.skipArguments.1 - (pre.length + 1)) := by omega
  rw [gccN, if_pos ⟨hcheck, hsearch, by omega, by omega⟩, hindices, hrest]
  refine cttiImpl_eq_drop fun j hj => ?_
  have hplace : c.skipArguments.1 + j - (pre.length + 1) =
      c.skipArguments.1 - (pre.length + 1) + j := by omega
  rw [cttiStep_stepSignature between name (by omega) (by omega), hplace,
    List.getElem?_eq_getElem hj]

/-- `n<0>()` compiles only if the skipped part ends in front of the bracket. -/
theorem le_of_gccN {data : List UInt8} (hc : c.copies = true)
    (hlonger : signature.length = (stepSignature pre between name 0).length + 7)
    (hsmall : pre.length + 1 + between.length + name.length + 1 < 10 ^ 7)
    (h : gccN (skip c untilRuntime) signature (stepSignature pre between name) = some data) :
    c.skipArguments.1 ≤ pre.length + 1 + between.length + name.length := by
  have hsize := gccSize_of_longer hlonger hsmall
  refine (gccLengthCheck_iff untilRuntime hc hsize).mp ?_
  rw [gccN] at h
  by_contra hcheck
  rw [if_neg fun hall => hcheck hall.1] at h
  cases h

end Steps

/-! ## Raw names -/

section RawNames

variable {c : Compiler} {m : CharMemory} {untilRuntime start : Pointer}
  {texts : List UInt8 × List UInt8} {name : List UInt8}

/-- Compilers that print the name twice share one configuration. -/
theorem skip_of_printsTwice (h : c.printsTwice = true) (untilRuntime : Pointer) :
    skip c untilRuntime = skip .clang untilRuntime ∧ c.copies = false := by
  cases c <;> first | exact ⟨rfl, rfl⟩ | cases h

/-- They print it between the texts of Clang. -/
theorem documentedTexts_of_printsTwice (h : c.printsTwice = true) :
    c.documentedTexts = some (clangPrefix, clangSeparator) := by
  rw [Compiler.printsTwice, Bool.or_eq_true, decide_eq_true_eq, decide_eq_true_eq] at h
  rcases h with rfl | rfl
  · rfl
  · rfl

/-- A compiler that prints the name once has room for what is skipped, without a search. -/
theorem skip_of_once (hcopies : c.copies = false) (htwice : c.printsTwice = false)
    (known : ∀ documented ∈ c.documentedTexts, texts = documented) (untilRuntime : Pointer) :
    (skip c untilRuntime).untilRuntimeLength = 0 ∧
      c.skipArguments.1 ≤ texts.1.length ∧ c.skipArguments.2.1 ≤ texts.2.length := by
  have hsearch : (skip c untilRuntime).untilRuntimeLength = 0 := by
    cases c <;> first | rfl | cases htwice
  refine ⟨hsearch, ?_⟩
  cases hdocumented : c.documentedTexts with
  | none =>
    have hother : c = .other := by
      cases c <;> first | rfl | cases hdocumented
    rw [hother]
    exact ⟨Nat.zero_le _, Nat.zero_le _⟩
  | some documented =>
    have hfits := (Compiler.fits_documented_iff hdocumented).mpr hcopies
    rw [← known documented hdocumented, Compiler.Fits, if_neg (by simp [hcopies])] at hfits
    exact ⟨hfits.1.ge, (hfits.2 htwice).ge⟩

/-- The text that it skips behind the name starts with a bracket. -/
theorem head_of_once (hcopies : c.copies = false) (htwice : c.printsTwice = false)
    (known : ∀ documented ∈ c.documentedTexts, texts = documented)
    (hpost : texts.2.length = c.skipArguments.2.1) :
    texts.2 = [] ∨ ∃ bracket rest, texts.2 = bracket :: rest ∧ bracket ∈ literal ">]" := by
  cases c with
  | other => exact Or.inl (List.eq_nil_of_length_eq_zero hpost)
  | appleClang | clang => cases htwice
  | edgCxx14 | gccBefore7 | gcc => cases hcopies
  | _ =>
    rw [known _ rfl]
    exact Or.inr ⟨_, _, rfl, by decide⟩

/-- `n()` returns the address of the raw name. -/
theorem Compiler.Returns.stringAt (h : c.Returns m untilRuntime texts name start)
    (hzero : 0 ∉ name) : m.StringAt start (c.rawName texts name) := by
  cases h with
  | once signature copies twice known holds returned =>
    obtain ⟨hsearch, hpre, hpost⟩ := skip_of_once copies twice known untilRuntime
    generalize hwhole : texts.1 ++ name ++ texts.2 = whole at holds returned
    have hlen : c.skipArguments.1 + c.skipArguments.2.1 ≤ whole.length := by
      rw [← hwhole, List.length_append, List.length_append]
      omega
    rw [← List.take_append_drop c.skipArguments.1 whole] at holds returned
    have hlong : (skip c untilRuntime).sizeAtEnd ≤ (whole.drop c.skipArguments.1).length := by
      change c.skipArguments.2.1 ≤ _
      rw [List.length_drop]
      omega
    have htake : (whole.take c.skipArguments.1).length = (skip c untilRuntime).sizeAtBegin :=
      List.length_take_of_le ((Nat.le_add_right _ _).trans hlen)
    obtain ⟨hstart, hraw⟩ := cttiN_of_no_search htake holds hlong hsearch
    cases hstart.symm.trans returned
    rw [Compiler.rawName, if_neg (by simp [copies]), if_neg (by simp [twice]), hwhole]
    exact hraw
  | twice signature twice known holds marker returned =>
    obtain ⟨hskip, hcopies⟩ := skip_of_printsTwice twice untilRuntime
    rw [hskip] at returned
    obtain ⟨start', hstart, hraw⟩ := cttiN_clang holds marker
    cases hstart.symm.trans returned
    rw [Compiler.rawName, if_neg (by simp [hcopies]), if_pos twice]
    exact hraw
  | copied copies behind terminated longer small returned holds =>
    have hreach := le_of_gccN copies longer small returned
    rw [gccN_stepSignature untilRuntime copies behind longer small hreach, Option.some.injEq] at returned
    have hlen : (texts.2 ++ (name ++ literal "]")).length =
        texts.2.length + name.length + 1 := by
      rw [List.length_append, List.length_append, Nat.add_assoc]
      rfl
    rw [← returned, List.drop_append_of_le_length (by omega)] at holds
    rw [Compiler.rawName, if_pos copies]
    refine ⟨fun hmem => ?_, holds⟩
    have hmem' := List.mem_of_mem_drop hmem
    simp only [List.mem_append, terminated, hzero, false_or] at hmem'
    revert hmem'
    decide

/-- `n()` compiles for every signature of a compiler with something in front of the bracket. -/
theorem Compiler.exists_returns (c : Compiler) (m : CharMemory) (untilRuntime : Pointer) :
    (∀ signature, c.copies = false → c.printsTwice = false →
      (∀ documented ∈ c.documentedTexts, texts = documented) →
      m.StringAt signature (texts.1 ++ name ++ texts.2) →
      ∃ start, c.Returns m untilRuntime texts name start) ∧
    (∀ signature, c.printsTwice = true → m.StringAt signature (clangSignature name) →
      m.HoldsAt untilRuntime clangMarker →
      ∃ start, c.Returns m untilRuntime (clangPrefix, clangSeparator) name start) ∧
    ∀ signature : List UInt8, c.copies = true → texts.1.length + 1 ≤ c.skipArguments.1 → 0 ∉ texts.2 →
      signature.length = (stepSignature texts.1 texts.2 name 0).length + 7 →
      texts.1.length + 1 + texts.2.length + name.length + 1 < 10 ^ 7 →
      c.skipArguments.1 ≤ texts.1.length + 1 + texts.2.length + name.length →
      ∃ data, ∀ start, m.HoldsAt start data → c.Returns m untilRuntime texts name start := by
  refine ⟨fun signature copies twice known holds => ?_, fun signature twice holds marker => ?_,
    fun signature copies behind terminated longer small reach => ?_⟩
  · obtain ⟨hsearch, hpre, hpost⟩ := skip_of_once copies twice known untilRuntime
    have hcheck : assertCompileTimeLegths (skip c untilRuntime)
        ((texts.1 ++ name ++ texts.2).length + 1) = true := by
      refine assertCompileTimeLegths_of_le ?_
      change c.skipArguments.1 + c.skipArguments.2.1 ≤ _
      rw [List.length_append, List.length_append]
      omega
    refine ⟨signature + (skip c untilRuntime).sizeAtBegin,
      .once signature copies twice known holds ?_⟩
    rw [cttiN, skipBegining, if_pos hcheck, if_neg (by simp [hsearch])]
  · obtain ⟨hskip, -⟩ := skip_of_printsTwice twice untilRuntime
    obtain ⟨start, hstart, -⟩ := cttiN_clang holds marker
    rw [← hskip] at hstart
    exact ⟨start, .twice signature twice rfl holds marker hstart⟩
  · have hdata := gccN_stepSignature untilRuntime copies behind longer small reach
    exact ⟨_, fun start holds =>
      .copied copies behind terminated longer small hdata holds⟩

/-- Where the configuration fits, the raw name starts with the name, unless the name contains
the marker of a compiler that prints it twice, and goes on with what is skipped at the end. -/
theorem Compiler.Returns.exists_rawName_eq (h : c.Returns m untilRuntime texts name start)
    (hfits : c.Fits texts)
    (hmarker : c.printsTwice = true → findFirst clangMarker name = none) :
    ∃ post, c.rawName texts name = name ++ post ∧
      post.length = (skip c untilRuntime).sizeAtEnd ∧
      (post = [] ∨ ∃ bracket rest, post = bracket :: rest ∧ bracket ∈ literal ">]") := by
  unfold Compiler.Fits at hfits
  cases h with
  | once signature copies twice known holds returned =>
    rw [if_neg (by simp [copies])] at hfits
    refine ⟨texts.2, ?_, hfits.2 twice, ?_⟩
    · rw [Compiler.rawName, if_neg (by simp [copies]), if_neg (by simp [twice]), ← hfits.1,
        List.append_assoc, List.drop_left]
    · exact head_of_once copies twice known (hfits.2 twice)
  | twice signature twice known holds marker returned =>
    obtain ⟨hskip, hcopies⟩ := skip_of_printsTwice twice untilRuntime
    refine ⟨literal "]", ?_, by rw [hskip]; rfl, Or.inr ⟨_, [], rfl, by decide⟩⟩
    rw [Compiler.rawName, if_neg (by simp [hcopies]), if_pos twice, clangRawName,
      hmarker twice]
  | copied copies behind terminated longer small returned holds =>
    obtain ⟨-, hend, -⟩ := skip_of_copies copies untilRuntime
    rw [if_pos copies] at hfits
    refine ⟨literal "]", ?_, hend.symm, Or.inr ⟨_, [], rfl, by decide⟩⟩
    have hskipped : c.skipArguments.1 - (texts.1.length + 1) = texts.2.length := by omega
    rw [Compiler.rawName, if_pos copies, hskipped, List.drop_left]

/-- Where the configuration does not fit, the raw name has another length. -/
theorem Compiler.Returns.length_rawName (h : c.Returns m untilRuntime texts name start)
    (hfits : ¬ c.Fits texts) :
    (skip c untilRuntime).sizeAtEnd ≤ (c.rawName texts name).length ∧
      (c.rawName texts name).length - (skip c untilRuntime).sizeAtEnd ≠ name.length := by
  cases h with
  | once signature copies twice known holds returned =>
    obtain ⟨-, hpre, hpost⟩ := skip_of_once copies twice known untilRuntime
    have hend : (skip c untilRuntime).sizeAtEnd = c.skipArguments.2.1 := rfl
    rw [Compiler.Fits, if_neg (by simp [copies])] at hfits
    have hlonger : ¬ (texts.1.length = c.skipArguments.1 ∧
        texts.2.length = c.skipArguments.2.1) := fun h => hfits ⟨h.1, fun _ => h.2⟩
    rw [Compiler.rawName, if_neg (by simp [copies]), if_neg (by simp [twice]), hend,
      List.length_drop, List.length_append, List.length_append]
    omega
  | twice signature twice known holds marker returned =>
    have hdocumented : c.documentedTexts = some texts :=
      (documentedTexts_of_printsTwice twice).trans (congrArg some known.symm)
    have hcopies := (skip_of_printsTwice twice untilRuntime).2
    exact absurd ((Compiler.fits_documented_iff hdocumented).mpr hcopies) hfits
  | copied copies behind terminated longer small returned holds =>
    have hreach := le_of_gccN copies longer small returned
    obtain ⟨-, hend, -⟩ := skip_of_copies copies untilRuntime
    have hbracket : (literal "]").length = 1 := rfl
    rw [Compiler.Fits, if_pos copies] at hfits
    rw [Compiler.rawName, if_pos copies, hend, List.length_drop, List.length_append,
      List.length_append, hbracket]
    omega

/-- The raw name determines the name where the configuration fits. -/
theorem Compiler.rawName_injective (h : c.Fits texts) : (c.rawName texts).Injective := by
  intro a b hraw
  unfold Compiler.Fits at h
  unfold Compiler.rawName at hraw
  cases hcopies : c.copies with
  | true =>
    rw [if_pos hcopies] at h
    have hskipped : c.skipArguments.1 - (texts.1.length + 1) = texts.2.length := by omega
    rw [if_pos hcopies, if_pos hcopies, hskipped, List.drop_left, List.drop_left] at hraw
    exact List.append_cancel_right hraw
  | false =>
    have hno : ¬ c.copies = true := by simp [hcopies]
    rw [if_neg hno] at h
    rw [if_neg hno, if_neg hno] at hraw
    cases htwice : c.printsTwice with
    | true =>
      rw [if_pos htwice, if_pos htwice] at hraw
      exact clangRawName_injective hraw
    | false =>
      rw [if_neg (by simp [htwice]), if_neg (by simp [htwice]), ← h.1, List.append_assoc,
        List.append_assoc, List.drop_left, List.drop_left] at hraw
      exact List.append_cancel_right hraw

end RawNames

/-- Where the configuration fits the texts of the compiler, two indices are equal exactly when
the types have one name. An index has the length of the name exactly then, and shows and
hashes it. Of the documented texts those with an index do not fit. -/
theorem compiler_names (c : Compiler) (m : CharMemory) (untilRuntime : Pointer) (P : Platform)
    (hash : List UInt8 → ℕ) {texts : List UInt8 × List UInt8} {a b : List UInt8}
    (x y : CttiTypeIndex m) (ha : c.Returns m untilRuntime texts a x.rawName.ptr)
    (hb : c.Returns m untilRuntime texts b y.rawName.ptr)
    (hnameA : a ≠ [] ∧ 0 ∉ a ∧ a.getLast? ≠ some space) (hnameB : 0 ∉ b) :
    (c.Fits texts → (x.equal P y = true ↔ a = b)) ∧
    ((c.printsTwice = true → findFirst clangMarker a = none) →
      (x.getRawNameLength (skip c untilRuntime) = some a.length ↔ c.Fits texts) ∧
      (c.Fits texts → x.prettyName (skip c untilRuntime) = some a ∧
        x.hashCode (skip c untilRuntime) hash = some (hash a))) ∧
    (c.documentedTexts = some texts → (c.Fits texts ↔ c.copies = false)) := by
  obtain ⟨hne, hzero, hlast⟩ := hnameA
  have hrawA := ha.stringAt hzero
  have hrawB := hb.stringAt hnameB
  refine ⟨fun hfits => ?_, fun hmarker => ⟨⟨fun hlength => ?_, fun hfits => ?_⟩, fun hfits => ?_⟩,
    Compiler.fits_documented_iff⟩
  · rw [CttiTypeIndex.equal, decide_eq_true_eq, constexprStrcmp_eq_zero, hrawA.chars_eq,
      hrawB.chars_eq]
    exact (Compiler.rawName_injective hfits).eq_iff
  · by_contra hfits
    obtain ⟨hend, hdiffers⟩ := ha.length_rawName hfits
    rw [← List.take_append_drop ((c.rawName texts a).length - (skip c untilRuntime).sizeAtEnd)
      (c.rawName texts a)] at hrawA
    rw [CttiTypeIndex.getRawNameLength_eq hrawA (by rw [List.length_drop]; omega),
      List.length_take_of_le (Nat.sub_le _ _)] at hlength
    exact hdiffers (Option.some.inj hlength)
  · obtain ⟨post, hraw, hpost, -⟩ := ha.exists_rawName_eq hfits hmarker
    rw [hraw] at hrawA
    exact CttiTypeIndex.getRawNameLength_eq hrawA hpost
  · obtain ⟨post, hraw, hpost, -⟩ := ha.exists_rawName_eq hfits hmarker
    rw [hraw] at hrawA
    exact ⟨CttiTypeIndex.prettyName_eq hrawA hpost hne hlast,
      CttiTypeIndex.hashCode_eq hrawA hpost hash⟩

/-! ### Two names on GCC -/

/-- The texts that GCC prints around the index, without a brace between them, fit. -/
theorem fits_gcc : Compiler.gcc.Fits (gccStepPrefix, gccSeparator) := by decide

/-- The signature of `n<0>()` on GCC is longer than that of `s<0>()` by `"const *"`. -/
theorem gccSignature_longer (name : List UInt8) : (gccSignature name).length =
    (stepSignature gccStepPrefix gccSeparator name 0).length + 7 := by
  rw [length_gccSignature, length_stepSignature_zero, length_gccStepPrefix, length_gccSeparator]
  omega

/-- The arrays copied for `"int"` and `"char"`. -/
def gccMemory : CharMemory := fun block =>
  (if block = 0 then literal "int" else literal "char") ++ literal "]" ++ [0]

/-- The first array is the raw name of `int`. -/
theorem gccMemory_int : gccMemory.StringAt ⟨0, 0⟩ (literal "int" ++ literal "]") := by decide

/-- The second array is the raw name of `char`. -/
theorem gccMemory_char : gccMemory.StringAt ⟨1, 0⟩ (literal "char" ++ literal "]") := by decide

/-- The types named `"int"` and `"char"` on GCC. -/
theorem compiler_names_gcc :
    let x : CttiTypeIndex gccMemory := ⟨gccMemory_int.cstr⟩
    let y : CttiTypeIndex gccMemory := ⟨gccMemory_char.cstr⟩
    let texts := (gccStepPrefix, gccSeparator)
    let S := skip .gcc ⟨0, 0⟩
    (Compiler.gcc.Fits texts →
      (x.equal ⟨.signed, default, .constexpr14⟩ y = true ↔ literal "int" = literal "char")) ∧
    ((Compiler.gcc.printsTwice = true → findFirst clangMarker (literal "int") = none) →
      (x.getRawNameLength S = some (literal "int").length ↔ Compiler.gcc.Fits texts) ∧
      (Compiler.gcc.Fits texts → x.prettyName S = some (literal "int") ∧
        x.hashCode S List.length = some (literal "int").length)) ∧
    (Compiler.gcc.documentedTexts = some texts →
      (Compiler.gcc.Fits texts ↔ Compiler.gcc.copies = false)) :=
  compiler_names .gcc gccMemory ⟨0, 0⟩ ⟨.signed, default, .constexpr14⟩ List.length _ _
    (.copied rfl (by decide) (by decide) (gccSignature_longer _) (by decide)
      (gccN_stepSignature _ rfl (by decide) (gccSignature_longer _) (by decide) (by decide))
      gccMemory_int.2)
    (.copied rfl (by decide) (by decide) (gccSignature_longer _) (by decide)
      (gccN_stepSignature _ rfl (by decide) (gccSignature_longer _) (by decide) (by decide))
      gccMemory_char.2)
    (by decide) (by decide)

end TypeIndex
