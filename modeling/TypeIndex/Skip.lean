import TypeIndex.Search
import TypeIndex.Strcmp

/-!
# Cutting a type name out of a function signature

`ctti<T>::n()` returns a pointer into the signature of a function, past a prefix
of fixed length and, where the compiler's format needs it, past the first
occurrence of a marker. The configuration records how many characters stand
before and after the name and which marker ends the text to be skipped.
-/

namespace TypeIndex

open CMemory

/-- The characters of a string literal, without its terminator. -/
def literal (text : String) : List UInt8 := text.toList.map fun c => UInt8.ofNat c.toNat

/-- Addition of `std::size_t` values. -/
def sizeAdd (a b : ℕ) : ℕ := (a + b) % 2 ^ 64

/-- Subtraction of `std::size_t` values. -/
def sizeSub (a b : ℕ) : ℕ := if b ≤ a then a - b else a + 2 ^ 64 - b

/-- A sum that wraps gets smaller. -/
theorem sizeAdd_le (a b : ℕ) : sizeAdd a b ≤ a + b := Nat.mod_le _ _

/-- A difference that fits does not wrap. -/
theorem sizeSub_of_le {a b : ℕ} (h : b ≤ a) : sizeSub a b = a - b := if_pos h

/-- What to skip in a signature. -/
structure CttiSkip where
  /-- Characters before the name or before the search for the marker. -/
  sizeAtBegin : ℕ
  /-- Characters after the name. -/
  sizeAtEnd : ℕ
  /-- The marker. -/
  untilRuntime : Pointer
  /-- The length of the marker, zero when there is no search. -/
  untilRuntimeLength : ℕ
  deriving DecidableEq

/-- `make_ctti_skip` with an explicit flag; `N` is the size of the marker's array. -/
def makeCttiSkip (sizeAtBegin sizeAtEnd : ℕ) (moreAtRuntime : Bool) (untilRuntime : Pointer)
    (N : ℕ) : CttiSkip :=
  ⟨sizeAtBegin, sizeAtEnd, untilRuntime, if moreAtRuntime then N - 1 else 0⟩

/-- `make_ctti_skip` without the flag. -/
def makeCttiSkipUntil (sizeAtBegin sizeAtEnd : ℕ) (untilRuntime : Pointer) (N : ℕ) : CttiSkip :=
  ⟨sizeAtBegin, sizeAtEnd, untilRuntime, N - 1⟩

/-- The compilers told apart by the preprocessor, in the order of the tests. -/
inductive Compiler
  | msvcNoNoexcept
  | msvc
  | appleClang
  | clang30
  | clang
  | edgCxx14
  | edg
  | gccBefore7
  | gcc
  | gccCxx11
  | ghs
  | other
  deriving DecidableEq, Repr

/-- The arguments of `make_ctti_skip` for a compiler without user-defined parsing. -/
def Compiler.skipArguments : Compiler → ℕ × ℕ × List UInt8
  | .msvcNoNoexcept => (40, 10, literal "")
  | .msvc => (40, 19, literal "")
  | .appleClang => (39, 1, literal "T = ")
  | .clang30 => (39, 6, literal "")
  | .clang => (39, 1, literal "T = ")
  | .edgCxx14 => (58, 1, literal "")
  | .edg => (57, 1, literal "")
  | .gccBefore7 => (81, 1, literal "")
  | .gcc => (80, 1, literal "")
  | .gccCxx11 => (57, 1, literal "")
  | .ghs => (57, 1, literal "")
  | .other => (0, 0, literal "")

/-- The function `skip()`, with its marker stored at an address. -/
def skip (compiler : Compiler) (untilRuntime : Pointer) : CttiSkip :=
  makeCttiSkipUntil compiler.skipArguments.1 compiler.skipArguments.2.1 untilRuntime
    (compiler.skipArguments.2.2.length + 1)

/-- The condition that `skip_begining` asserts at compile time. -/
def assertCompileTimeLegths (S : CttiSkip) (arrayLength : ℕ) : Bool :=
  decide (sizeAdd S.sizeAtBegin S.sizeAtEnd < arrayLength)

/-- Move past the first occurrence of the marker, or stay without one. -/
def skipBeginingRuntime (S : CttiSkip) (m : CharMemory) (arrayLength : ℕ) (start : Pointer) :
    Option Pointer := do
  let it ← constexprSearch m start (start + arrayLength) S.untilRuntime
    (S.untilRuntime + S.untilRuntimeLength)
  return if it = start + arrayLength then start else it + S.untilRuntimeLength

/-- Skip the beginning of a signature array. A configuration that fails the
assertion does not compile and has no result. -/
def skipBegining (S : CttiSkip) (m : CharMemory) (arrayLength : ℕ) (start : Pointer) :
    Option Pointer :=
  if assertCompileTimeLegths S arrayLength then
    if S.untilRuntimeLength ≠ 0 then
      skipBeginingRuntime S m (sizeSub arrayLength S.sizeAtBegin) (start + S.sizeAtBegin)
    else some (start + S.sizeAtBegin)
  else none

/-- `ctti<T>::n()` on a compiler other than GCC in C++14 mode: skip the beginning
of the function's own signature. The array's size counts the terminator. -/
def cttiN (S : CttiSkip) (m : CharMemory) (signature : Pointer) (length : ℕ) : Option Pointer :=
  skipBegining S m (length + 1) signature

section

variable {S : CttiSkip} {m : CharMemory} {signature : Pointer} {pre body pat : List UInt8} {k : ℕ}

/-- A signature with room for both skips passes the compile-time check. -/
theorem assertCompileTimeLegths_of_le {length : ℕ} (h : S.sizeAtBegin + S.sizeAtEnd ≤ length) :
    assertCompileTimeLegths S (length + 1) = true := by
  have hle := sizeAdd_le S.sizeAtBegin S.sizeAtEnd
  rw [assertCompileTimeLegths, decide_eq_true_eq]
  omega

/-- Without a search the name starts right after the prefix. -/
theorem cttiN_of_no_search (hpre : pre.length = S.sizeAtBegin)
    (hsig : m.StringAt signature (pre ++ body)) (hlong : S.sizeAtEnd ≤ body.length)
    (hnone : S.untilRuntimeLength = 0) :
    cttiN S m signature (pre ++ body).length = some (signature + pre.length) ∧
      m.StringAt (signature + pre.length) body := by
  refine ⟨?_, hsig.add⟩
  have hcheck : assertCompileTimeLegths S ((pre ++ body).length + 1) = true :=
    assertCompileTimeLegths_of_le (by rw [List.length_append]; omega)
  rw [cttiN, skipBegining, if_pos hcheck, if_neg (by simpa using hnone), hpre]

/-- With a search the result lies right behind the first occurrence of the marker, or
at the start when there is none. -/
theorem skipBeginingRuntime_eq {start : Pointer} (hbody : m.HoldsAt start body)
    (hpat : m.HoldsAt S.untilRuntime pat) (hlen : S.untilRuntimeLength = pat.length)
    (hne : pat ≠ []) :
    skipBeginingRuntime S m body.length start =
      some (match findFirst pat body with
        | some k => start + (k + pat.length)
        | none => start) := by
  have hsearch := constexprSearch_eq hbody hpat
  rw [skipBeginingRuntime, hlen, hsearch]
  cases hfind : findFirst pat body with
  | none => simp
  | some k =>
    have hinside := (findFirst_eq_some.mp hfind).1.add_length_le hne
    have hpos := List.length_pos_iff.mpr hne
    have hnotEnd : start + k ≠ start + body.length := by
      intro h
      rw [Pointer.add_right_inj] at h
      omega
    simp only [Option.bind_eq_bind, Option.bind_some, Option.pure_def, if_neg hnotEnd,
      Pointer.add_add]

/-- With a search the name starts right after the first occurrence of the marker. -/
theorem cttiN_of_first (hpre : pre.length = S.sizeAtBegin)
    (hsig : m.StringAt signature (pre ++ body)) (hlong : S.sizeAtEnd ≤ body.length)
    (hpat : m.HoldsAt S.untilRuntime pat) (hlen : S.untilRuntimeLength = pat.length)
    (hne : pat ≠ []) (hfirst : FirstOccurrence pat body k) :
    cttiN S m signature (pre ++ body).length =
        some (signature + pre.length + (k + pat.length)) ∧
      m.StringAt (signature + pre.length + (k + pat.length)) (body.drop (k + pat.length)) := by
  have hinside := hfirst.1.add_length_le hne
  have hcheck : assertCompileTimeLegths S ((pre ++ body).length + 1) = true :=
    assertCompileTimeLegths_of_le (by rw [List.length_append]; omega)
  have hposition := hsig.2
  rw [List.append_assoc] at hposition
  have hbody : m.HoldsAt (signature + pre.length) (body ++ [0]) := hposition.add
  have harray : sizeSub ((pre ++ body).length + 1) pre.length = (body ++ [0]).length := by
    rw [sizeSub_of_le (by rw [List.length_append]; omega)]
    simp only [List.length_append, List.length_singleton]
    omega
  constructor
  · rw [cttiN, skipBegining, if_pos hcheck,
      if_pos (by rw [hlen]; exact (List.length_pos_iff.mpr hne).ne'), ← hpre, harray,
      skipBeginingRuntime_eq hbody hpat hlen hne,
      findFirst_eq_some.mpr (hfirst.append hne [0])]
  · have hsplit := hsig.add
    rw [← List.take_append_drop (k + pat.length) body] at hsplit
    have hshift := hsplit.add
    rwa [List.length_take_of_le hinside] at hshift

end

end TypeIndex
