import TypeIndex.IndexSequence
import TypeIndex.Skip

/-!
# Names copied character by character on GCC

GCC in C++14 mode does not allow pointers into the signature of a function in a
constant expression. Every character of the name is read by a function `s<I>()` of
its own from that function's own signature, in which the index `I` is printed in
decimal, and the characters are collected in an array.
-/

namespace TypeIndex

open CMemory

/-- The decimal digits of a template argument, as the compiler prints it. -/
def decimal (n : ℕ) : List UInt8 := literal n.repr

/-- The text before the index in the signature of a step. -/
def gccStepPrefix : List UInt8 :=
  literal "static constexpr char boost::detail::ctti<T>::s() [with unsigned int I = "

/-- The text between the index and the name. -/
def gccSeparator : List UInt8 := literal "; T = "

/-- `__PRETTY_FUNCTION__` inside `ctti<T>::s<I>()`. -/
def gccStepSignature (name : List UInt8) (I : ℕ) : List UInt8 :=
  gccStepPrefix ++ (decimal I ++ (gccSeparator ++ (name ++ literal "]")))

/-- The text before the separator in the signature of `n<0>()`. -/
def gccPrefix : List UInt8 :=
  literal "static constexpr const char* boost::detail::ctti<T>::n() [with unsigned int D = 0"

/-- `__PRETTY_FUNCTION__` inside `ctti<T>::n<0>()`. -/
def gccSignature (name : List UInt8) : List UInt8 :=
  gccPrefix ++ (gccSeparator ++ (name ++ literal "]"))

/-- The constant `offset` of `s<I>()`: the digits of `I` beyond the first one. -/
def stepOffset (I : ℕ) : ℕ :=
  (if 10 ≤ I then 1 else 0) + (if 100 ≤ I then 1 else 0) + (if 1000 ≤ I then 1 else 0) +
    (if 10000 ≤ I then 1 else 0) + (if 100000 ≤ I then 1 else 0) + (if 1000000 ≤ I then 1 else 0)

/-- `ctti<T>::s<I>()`: one character of the signature array, the terminator included. -/
def cttiStep (signature : List UInt8) (I : ℕ) : Option UInt8 :=
  (signature ++ [0])[uintAdd I (stepOffset I)]?

/-- `sizeof("const *")`. -/
def sizeofConstPointer : ℕ := 8

/-- The constant `size` of `n<0>()`, of type `unsigned int`. -/
def gccSize (signature : List UInt8) : ℕ := (signature.length + 1) % 2 ^ 32

/-- The condition that `n<0>()` asserts at compile time. -/
def gccLengthCheck (S : CttiSkip) (size : ℕ) : Bool :=
  decide (sizeSub (sizeAdd (sizeAdd S.sizeAtBegin S.sizeAtEnd) sizeofConstPointer) 1 < size)

/-- The number of indices: the size without the longer part of the signature of
`n<0>()` and without the prefix. -/
def gccIndexCount (S : CttiSkip) (size : ℕ) : ℕ :=
  sizeSub (sizeAdd (sizeSub size sizeofConstPointer) 1) S.sizeAtBegin

/-- The indices of the characters to be copied. -/
def gccIndices (S : CttiSkip) (size : ℕ) : List ℕ :=
  makeIndexSeqImpl S.sizeAtBegin (gccIndexCount S size)

/-- `ctti<T>::impl`: the array of the characters read by every step. -/
def cttiImpl (stepSignature : ℕ → List UInt8) (indices : List ℕ) : Option (List UInt8) :=
  indices.mapM fun I => cttiStep (stepSignature I) I

/-- `ctti<T>::n<0>()`: the array it returns a pointer to. Failed assertions and
arguments outside `unsigned int` do not compile and have no result. -/
def gccN (S : CttiSkip) (signature : List UInt8) (stepSignature : ℕ → List UInt8) :
    Option (List UInt8) :=
  if gccLengthCheck S (gccSize signature) ∧ S.untilRuntimeLength = 0 ∧
      S.sizeAtBegin < 2 ^ 32 ∧ gccIndexCount S (gccSize signature) < 2 ^ 32 then
    cttiImpl stepSignature (gccIndices S (gccSize signature))
  else none

/-! ## Digits -/

/-- The width of a number's decimal digits. -/
theorem length_decimal_le_iff {n k : ℕ} (hk : 0 < k) : (decimal n).length ≤ k ↔ n < 10 ^ k := by
  rw [decimal, literal, List.length_map, String.length_toList]
  exact Nat.length_repr_le_iff hk

/-- The digits contain no terminator. -/
theorem zero_not_mem_decimal (n : ℕ) : 0 ∉ decimal n := by
  intro h
  obtain ⟨c, hc, hzero⟩ := List.mem_map.mp h
  rw [Nat.toList_repr] at hc
  have hdigit := Nat.isDigit_of_mem_toDigits (by decide) (by decide) hc
  obtain ⟨hlow, hhigh⟩ := Char.isDigit_iff_toNat.mp hdigit
  have hmod := congrArg UInt8.toNat hzero
  rw [UInt8.toNat_ofNat'] at hmod
  change 48 ≤ c.toNat at hlow
  change c.toNat ≤ 57 at hhigh
  change c.toNat % 256 = 0 at hmod
  omega

/-- Up to seven digits the offset is the number of digits beyond the first. -/
theorem stepOffset_add_one {I : ℕ} (hI : I < 10 ^ 7) : stepOffset I + 1 = (decimal I).length := by
  have hwidth : ∀ k, 0 < k → ((decimal I).length ≤ k ↔ I < 10 ^ k) := fun k =>
    length_decimal_le_iff
  have h1 := hwidth 1 (by decide)
  have h2 := hwidth 2 (by decide)
  have h3 := hwidth 3 (by decide)
  have h4 := hwidth 4 (by decide)
  have h5 := hwidth 5 (by decide)
  have h6 := hwidth 6 (by decide)
  have h7 := hwidth 7 (by decide)
  have hpos : 0 < (decimal I).length := by
    rw [decimal, literal, List.length_map, String.length_toList]
    exact Nat.length_repr_pos
  unfold stepOffset
  split_ifs <;> omega

/-- The offset is at most six. -/
theorem stepOffset_le (I : ℕ) : stepOffset I ≤ 6 := by
  unfold stepOffset
  split_ifs <;> omega

/-- An index of at most seven digits moves without overflow. -/
theorem stepIndex_lt {I : ℕ} (hI : I < 10 ^ 7) : I + stepOffset I < 2 ^ 32 := by
  have hle := stepOffset_le I
  omega

/-- From eight digits on the offset is smaller than the number of further digits. -/
theorem stepOffset_lt_of_le {I : ℕ} (hI : 10 ^ 7 ≤ I) : stepOffset I + 1 < (decimal I).length := by
  have hwidth : (decimal I).length ≤ 7 ↔ I < 10 ^ 7 := length_decimal_le_iff (by decide)
  have hle := stepOffset_le I
  omega

/-! ## Steps -/

section

variable {name : List UInt8} {I : ℕ}

/-- The text before the index has 73 characters. -/
theorem length_gccStepPrefix : gccStepPrefix.length = 73 := rfl

/-- The text of `n<0>()` before the separator has 81 characters. -/
theorem length_gccPrefix : gccPrefix.length = 81 := rfl

/-- The separator has six characters. -/
theorem length_gccSeparator : gccSeparator.length = 6 := rfl

/-- The signature of a step grows with the digits of its index. -/
theorem length_gccStepSignature (name : List UInt8) (I : ℕ) :
    (gccStepSignature name I).length = 80 + (decimal I).length + name.length := by
  have hend : (literal "]").length = 1 := rfl
  rw [gccStepSignature]
  simp only [List.length_append, length_gccStepPrefix, length_gccSeparator, hend]
  omega

/-- The signature of `n<0>()` has 88 characters besides the name. -/
theorem length_gccSignature (name : List UInt8) :
    (gccSignature name).length = 88 + name.length := by
  have hend : (literal "]").length = 1 := rfl
  rw [gccSignature]
  simp only [List.length_append, length_gccPrefix, length_gccSeparator, hend]
  omega

/-- A signature contains no terminator when the name contains none. -/
theorem zero_not_mem_gccStepSignature (hname : 0 ∉ name) (I : ℕ) :
    0 ∉ gccStepSignature name I := by
  rw [gccStepSignature]
  simp only [List.mem_append, not_or]
  exact ⟨by decide, zero_not_mem_decimal I, by decide, hname, by decide⟩

/-- A step for an index up to the terminator's reads inside its own signature array. -/
theorem step_le_length (hI : I ≤ 81 + name.length) :
    I + stepOffset I ≤ (gccStepSignature name I).length := by
  rw [length_gccStepSignature]
  by_cases hsmall : I < 10 ^ 7
  · have hoffset := stepOffset_add_one hsmall
    omega
  · have hoffset := stepOffset_lt_of_le (not_lt.mp hsmall)
    omega

/-- Such a step has a result. -/
theorem exists_cttiStep (hI : I ≤ 81 + name.length) :
    ∃ c, cttiStep (gccStepSignature name I) I = some c := by
  have hle := step_le_length hI
  have hmod := uintAdd_le I (stepOffset I)
  refine ⟨_, List.getElem?_eq_getElem ?_⟩
  rw [List.length_append, List.length_singleton]
  omega

/-- The step for the index `80 + j` reads character `j` behind the decoration, as
long as the index has at most seven digits. -/
theorem cttiStep_eq (name : List UInt8) {j : ℕ} (hj : 80 + j < 10 ^ 7) :
    cttiStep (gccStepSignature name (80 + j)) (80 + j) = (name ++ literal "]" ++ [0])[j]? := by
  have hoffset := stepOffset_add_one hj
  have hindex : uintAdd (80 + j) (stepOffset (80 + j)) =
      gccStepPrefix.length + ((decimal (80 + j)).length + (gccSeparator.length + j)) := by
    rw [uintAdd_of_lt (stepIndex_lt hj), length_gccStepPrefix, length_gccSeparator]
    omega
  rw [cttiStep, hindex, gccStepSignature]
  simp only [List.append_assoc]
  rw [List.getElem?_append_right (Nat.le_add_right _ _), Nat.add_sub_cancel_left,
    List.getElem?_append_right (Nat.le_add_right _ _), Nat.add_sub_cancel_left,
    List.getElem?_append_right (Nat.le_add_right _ _), Nat.add_sub_cancel_left]

/-- The step for an index of more than seven digits does not reach the terminator. -/
theorem cttiStep_ne_zero (hname : 0 ∉ name) (hI : I ≤ 81 + name.length) (hlarge : 10 ^ 7 ≤ I) :
    cttiStep (gccStepSignature name I) I ≠ some 0 := by
  intro h
  have hoffset := stepOffset_lt_of_le hlarge
  have hmod := uintAdd_le I (stepOffset I)
  have hlt : uintAdd I (stepOffset I) < (gccStepSignature name I).length := by
    rw [length_gccStepSignature]
    omega
  rw [cttiStep, List.getElem?_append_left hlt] at h
  exact zero_not_mem_gccStepSignature hname I (List.mem_of_getElem? h)

end

/-! ## The array -/

/-- Copying succeeds when every step does, and yields the characters in order. -/
theorem cttiImpl_eq_map {stepSignature : ℕ → List UInt8} {indices : List ℕ}
    (h : ∀ I ∈ indices, ∃ c, cttiStep (stepSignature I) I = some c) :
    cttiImpl stepSignature indices =
      some (indices.map fun I => (cttiStep (stepSignature I) I).getD 0) := by
  induction indices with
  | nil => rfl
  | cons I indices ih =>
    obtain ⟨c, hc⟩ := h I List.mem_cons_self
    have htail := ih fun J hJ => h J (List.mem_cons_of_mem _ hJ)
    rw [cttiImpl] at htail ⊢
    rw [List.mapM_cons, htail, List.map_cons, hc]
    rfl

section

variable {name : List UInt8} {untilRuntime : Pointer}

/-- The size of the signature array. -/
theorem gccSize_gccSignature (hlen : 89 + name.length < 2 ^ 32) :
    gccSize (gccSignature name) = 89 + name.length := by
  rw [gccSize, length_gccSignature, Nat.mod_eq_of_lt (by omega)]
  omega

/-- The length check asks for more than 88 characters. -/
theorem gccLengthCheck_eq (untilRuntime : Pointer) (size : ℕ) :
    gccLengthCheck (skip .gcc untilRuntime) size = decide (88 < size) := rfl

/-- There are two more indices than characters in the name. -/
theorem gccIndexCount_eq (untilRuntime : Pointer) {length : ℕ} (hlen : length < 2 ^ 32) :
    gccIndexCount (skip .gcc untilRuntime) (89 + length) = length + 2 := by
  have hconst : sizeSub (89 + length) sizeofConstPointer = 81 + length := by
    rw [sizeofConstPointer, sizeSub_of_le (by omega)]
    omega
  have hone : sizeAdd (81 + length) 1 = 82 + length := by
    rw [sizeAdd, Nat.mod_eq_of_lt (by omega)]
    omega
  have hbegin : (skip .gcc untilRuntime).sizeAtBegin = 80 := rfl
  rw [gccIndexCount, hconst, hone, hbegin, sizeSub_of_le (by omega)]
  omega

/-- The indices run from the prefix's length to the terminator. -/
theorem gccIndices_eq (hlen : 89 + name.length < 2 ^ 32) :
    gccIndices (skip .gcc untilRuntime) (gccSize (gccSignature name)) =
      List.range' 80 (name.length + 2) := by
  have hbegin : (skip .gcc untilRuntime).sizeAtBegin = 80 := rfl
  rw [gccIndices, gccSize_gccSignature hlen, gccIndexCount_eq _ (by omega), hbegin]
  exact makeIndexSeqImpl_eq _ _ (by omega) (by omega)

/-- With a size that fits `unsigned int`, `n<0>()` copies the characters at all indices. -/
theorem gccN_eq_map (hne : name ≠ []) (hlen : 89 + name.length < 2 ^ 32) :
    gccN (skip .gcc untilRuntime) (gccSignature name) (gccStepSignature name) =
      some ((List.range' 80 (name.length + 2)).map fun I =>
        (cttiStep (gccStepSignature name I) I).getD 0) := by
  have hpos := List.length_pos_iff.mpr hne
  have hcheck : gccLengthCheck (skip .gcc untilRuntime) (gccSize (gccSignature name)) = true := by
    rw [gccLengthCheck_eq, gccSize_gccSignature hlen, decide_eq_true_eq]
    omega
  have hcount : gccIndexCount (skip .gcc untilRuntime) (gccSize (gccSignature name)) < 2 ^ 32 := by
    rw [gccSize_gccSignature hlen, gccIndexCount_eq _ (by omega)]
    omega
  have hbegin : (skip .gcc untilRuntime).sizeAtBegin < 2 ^ 32 := by
    change 80 < 2 ^ 32
    decide
  rw [gccN, if_pos ⟨hcheck, rfl, hbegin, hcount⟩, gccIndices_eq hlen]
  refine cttiImpl_eq_map fun I hI => exists_cttiStep ?_
  rw [List.mem_range'_1] at hI
  omega

/-- A size that does not fit `unsigned int` fails the length check. -/
theorem gccN_of_overflow (hlen : 2 ^ 32 ≤ 89 + name.length) (hindex : 81 + name.length < 2 ^ 32) :
    gccN (skip .gcc untilRuntime) (gccSignature name) (gccStepSignature name) = none := by
  have hcheck : gccLengthCheck (skip .gcc untilRuntime) (gccSize (gccSignature name)) = false := by
    rw [gccLengthCheck_eq, gccSize, length_gccSignature, decide_eq_false_iff_not]
    omega
  rw [gccN, hcheck, if_neg (by simp)]

/-- Up to 9999918 characters the array is the name, the bracket and the terminator. -/
theorem gccN_of_le (hne : name ≠ []) (hle : name.length ≤ 9999918) :
    gccN (skip .gcc untilRuntime) (gccSignature name) (gccStepSignature name) =
      some (name ++ literal "]" ++ [0]) := by
  have hlength : (name ++ literal "]" ++ [0]).length = name.length + 2 := by
    simp only [List.length_append, List.length_singleton]
    rfl
  rw [gccN_eq_map hne (by omega)]
  congr 1
  apply List.ext_getElem
  · rw [List.length_map, List.length_range', hlength]
  · intro j _ hj
    rw [List.getElem_map, List.getElem_range', Nat.one_mul, cttiStep_eq name (by omega),
      List.getElem?_eq_getElem hj, Option.getD_some]

/-- From 9999919 characters on the array ends in another character. -/
theorem gccN_getLast (untilRuntime : Pointer) (hname : 0 ∉ name) (hlong : 9999918 < name.length)
    (hlen : 89 + name.length < 2 ^ 32) :
    ∃ data last, gccN (skip .gcc untilRuntime) (gccSignature name) (gccStepSignature name) =
      some data ∧ data.getLast? = some last ∧ last ≠ 0 := by
  have hne : name ≠ [] := List.length_pos_iff.mp (by omega)
  have hindex : 80 + (name.length + 1) ≤ 81 + name.length := by omega
  obtain ⟨c, hc⟩ := exists_cttiStep hindex
  have hzero := cttiStep_ne_zero hname hindex (by omega)
  rw [hc] at hzero
  refine ⟨_, c, gccN_eq_map hne hlen, ?_, fun h => hzero (congrArg some h)⟩
  rw [List.range'_1_concat, List.map_append, List.map_singleton, List.getLast?_concat, hc,
    Option.getD_some]

end

/-- Reconstruction of the name: up to 9999918 characters the check passes, nothing
wraps, every step reads inside its own signature, and the array is the name, the
bracket and one terminator. Every array for a longer name lacks the terminator. -/
theorem gcc_name_reconstruction {name : List UInt8} (hname : 0 ∉ name) (hne : name ≠ [])
    (untilRuntime : Pointer) :
    let S := skip .gcc untilRuntime
    let size := gccSize (gccSignature name)
    let array := gccN S (gccSignature name) (gccStepSignature name)
    (name.length ≤ 9999918 →
      gccLengthCheck S size = true ∧
      1 ≤ S.sizeAtBegin + S.sizeAtEnd + sizeofConstPointer ∧
      sizeofConstPointer ≤ size ∧ S.sizeAtBegin ≤ size - sizeofConstPointer + 1 ∧
      (∀ I ∈ gccIndices S size, uintAdd I (stepOffset I) = I + stepOffset I ∧
        I + stepOffset I < (gccStepSignature name I ++ [0]).length) ∧
      array = some (name ++ literal "]" ++ [0])) ∧
    (9999918 < name.length → 81 + name.length < 2 ^ 32 →
      (89 + name.length < 2 ^ 32 → ∃ data, array = some data) ∧
      ∀ data, array = some data → ∃ last, data.getLast? = some last ∧ last ≠ 0) := by
  intro S size array
  have hbegin : S.sizeAtBegin = 80 := rfl
  have hpos := List.length_pos_iff.mpr hne
  constructor
  · intro hle
    have hsize : size = 89 + name.length := gccSize_gccSignature (by omega)
    have hconst : sizeofConstPointer = 8 := rfl
    refine ⟨?_, by omega, by omega, by omega, ?_, gccN_of_le hne hle⟩
    · rw [gccLengthCheck_eq, hsize, decide_eq_true_eq]
      omega
    · intro I hI
      have hindices : gccIndices S size = List.range' 80 (name.length + 2) :=
        gccIndices_eq (by omega)
      rw [hindices, List.mem_range'_1] at hI
      refine ⟨uintAdd_of_lt (stepIndex_lt (by omega)), ?_⟩
      rw [List.length_append, List.length_singleton]
      exact Nat.lt_succ_of_le (step_le_length (by omega))
  · intro hlong hindex
    by_cases hlen : 89 + name.length < 2 ^ 32
    · obtain ⟨data, last, hdata, hlast, hzero⟩ :=
        gccN_getLast untilRuntime hname hlong hlen
      refine ⟨fun _ => ⟨data, hdata⟩, fun other hother => ?_⟩
      rw [Option.some.inj (hother.symm.trans hdata)]
      exact ⟨last, hlast, hzero⟩
    · have hnone : array = none := gccN_of_overflow (not_lt.mp hlen) hindex
      refine ⟨fun h => absurd h hlen, fun data hdata => ?_⟩
      rw [hnone] at hdata
      cases hdata

/-- A name is reconstructed whose first characters have indices of two digits and whose last
ones have indices of three. -/
theorem gcc_name_reconstruction_string :
    let name := literal "std::basic_string<char>"
    let S := skip .gcc ⟨0, 0⟩
    let size := gccSize (gccSignature name)
    let array := gccN S (gccSignature name) (gccStepSignature name)
    (name.length ≤ 9999918 →
      gccLengthCheck S size = true ∧
      1 ≤ S.sizeAtBegin + S.sizeAtEnd + sizeofConstPointer ∧
      sizeofConstPointer ≤ size ∧ S.sizeAtBegin ≤ size - sizeofConstPointer + 1 ∧
      (∀ I ∈ gccIndices S size, uintAdd I (stepOffset I) = I + stepOffset I ∧
        I + stepOffset I < (gccStepSignature name I ++ [0]).length) ∧
      array = some (name ++ literal "]" ++ [0])) ∧
    (9999918 < name.length → 81 + name.length < 2 ^ 32 →
      (89 + name.length < 2 ^ 32 → ∃ data, array = some data) ∧
      ∀ data, array = some data → ∃ last, data.getLast? = some last ∧ last ≠ 0) :=
  gcc_name_reconstruction (by decide) (by decide) ⟨0, 0⟩

end TypeIndex
