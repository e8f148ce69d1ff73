import TypeIndex.CMemory.Compare
import Mathlib.Data.UInt

/-!
# String comparison of type names

`constexpr_strcmp` compares names by a loop over plain `char` where the compiler
knows both strings, and by the C library elsewhere. The loop subtracts promoted
characters, so its order follows the signedness of `char`; the library compares
bytes as `unsigned char`. Both are comparisons by a key, and they have the same
sign exactly when the first differing bytes agree in their top bit.
-/

namespace TypeIndex

open CMemory

/-- Memory holding arrays of `char`. -/
abbrev CharMemory := Memory UInt8

/-- The signedness of plain `char`, chosen by the implementation. -/
inductive CharSign
  | signed
  | unsigned
  deriving DecidableEq, Repr

/-- The `int` that a plain `char` is promoted to. -/
def CharSign.toInt : CharSign → UInt8 → ℤ
  | .signed, c => if c.toNat < 128 then c.toNat else c.toNat - 256
  | .unsigned, c => c.toNat

/-- Promotion of `char` loses nothing. -/
theorem CharSign.toInt_injective (sign : CharSign) : sign.toInt.Injective := by
  intro c d h
  have hc := c.toNat_lt
  have hd := d.toNat_lt
  apply UInt8.toNat_inj.mp
  cases sign with
  | signed =>
    simp only [CharSign.toInt] at h
    split at h <;> split at h <;> omega
  | unsigned =>
    simp only [CharSign.toInt] at h
    omega

/-- An implementation of `std::strcmp`: only the sign of its result is specified,
and it is decided by the first differing characters read as `unsigned char`. -/
structure Strcmp where
  /-- The comparison of the strings at two addresses. -/
  run : (m : CharMemory) → CStr m → CStr m → ℤ
  /-- The result has the sign that the C standard prescribes. -/
  sign_run : ∀ (m : CharMemory) (v1 v2 : CStr m),
    (run m v1 v2).sign = (compareBy CharSign.unsigned.toInt v1.chars v2.chars).sign

/-- The implementation that returns the difference of the differing characters. -/
instance : Inhabited Strcmp :=
  ⟨⟨fun _ v1 v2 => compareBy CharSign.unsigned.toInt v1.chars v2.chars, fun _ _ _ => rfl⟩⟩

/-- The preprocessor branch in which `constexpr_strcmp` is compiled. -/
inductive StrcmpBuild
  /-- C++14 with both builtins; `__builtin_constant_p` answers for each character read. -/
  | builtins (isConstant : Pointer → Bool)
  /-- C++14 without the builtins. -/
  | constexpr14
  /-- No C++14 `constexpr`. -/
  | cxx11

/-- What the implementation fixes for string comparison. -/
structure Platform where
  /-- The signedness of plain `char`. -/
  charSign : CharSign
  /-- The C library's comparison, also reached as `__builtin_strcmp`. -/
  strcmp : Strcmp
  /-- The branch of `constexpr_strcmp` compiled. -/
  build : StrcmpBuild

section

variable {m : CharMemory}

/-- Scan the string while its characters are known to be constant. -/
def isConstantString (isConstant : Pointer → Bool) (str : CStr m) : Bool :=
  if isConstant str.ptr then
    if h : str.deref = 0 then true else isConstantString isConstant (str.next h)
  else false
termination_by str.chars.length
decreasing_by exact CStr.chars_next_length_lt h

/-- The comparison loop over plain `char`. -/
def constexprStrcmpLoop (sign : CharSign) (v1 v2 : CStr m) : ℤ :=
  if h : v1.deref ≠ 0 ∧ v1.deref = v2.deref then
    constexprStrcmpLoop sign (v1.next h.1) (v2.next (h.2 ▸ h.1))
  else sign.toInt v1.deref - sign.toInt v2.deref
termination_by v1.chars.length
decreasing_by exact CStr.chars_next_length_lt h.1

/-- `constexpr_strcmp`: the loop on constant strings, the C library elsewhere. -/
def constexprStrcmp (P : Platform) (v1 v2 : CStr m) : ℤ :=
  match P.build with
  | .builtins isConstant =>
    if isConstantString isConstant v1 && isConstantString isConstant v2 then
      constexprStrcmpLoop P.charSign v1 v2
    else P.strcmp.run m v1 v2
  | .constexpr14 => constexprStrcmpLoop P.charSign v1 v2
  | .cxx11 => P.strcmp.run m v1 v2

/-- The loop is the comparison of the two strings by promoted characters. -/
theorem constexprStrcmpLoop_eq (sign : CharSign) (v1 v2 : CStr m) :
    constexprStrcmpLoop sign v1 v2 = compareBy sign.toInt v1.chars v2.chars := by
  induction v1, v2 using constexprStrcmpLoop.induct with
  | case1 v1 v2 h ih =>
    rw [constexprStrcmpLoop, dif_pos h, ih, CStr.chars_of_next h.1,
      CStr.chars_of_next (v := v2) (h.2 ▸ h.1), compareBy_cons_of_eq _ h.2]
  | case2 v1 v2 h =>
    rw [constexprStrcmpLoop, dif_neg h]
    by_cases h1 : v1.deref = 0
    · rw [CStr.chars_of_end h1, h1]
      by_cases h2 : v2.deref = 0
      · rw [CStr.chars_of_end h2, h2]
        simp
      · rw [CStr.chars_of_next h2, compareBy_of_some rfl]
    · have hne : v1.deref ≠ v2.deref := fun he => h ⟨h1, he⟩
      rw [CStr.chars_of_next h1]
      by_cases h2 : v2.deref = 0
      · rw [CStr.chars_of_end h2, h2, compareBy_of_some rfl]
      · have hdiff : firstDifference (v1.deref :: (v1.next h1).chars)
            (v2.deref :: (v2.next h2).chars) = some (v1.deref, v2.deref) := by
          rw [firstDifference, if_neg hne]
        rw [CStr.chars_of_next h2, compareBy_of_some hdiff]

/-- A string all of whose characters are known constants takes the constant path. -/
theorem isConstantString_of_forall {isConstant : Pointer → Bool} (h : ∀ p, isConstant p = true)
    (str : CStr m) : isConstantString isConstant str = true := by
  induction str using isConstantString.induct isConstant with
  | case1 str _ hend => rw [isConstantString, if_pos (h _), dif_pos hend]
  | case2 str _ hend ih => rw [isConstantString, if_pos (h _), dif_neg hend, ih]
  | case3 str hc => exact absurd (h _) hc

/-- A string whose first character is not known to be constant does not. -/
theorem isConstantString_of_not {isConstant : Pointer → Bool} {str : CStr m}
    (h : isConstant str.ptr = false) : isConstantString isConstant str = false := by
  rw [isConstantString, h, if_neg Bool.false_ne_true]

end

/-! ## The two paths -/

/-- The path that `constexpr_strcmp` takes for a pair of strings. -/
inductive StrcmpPath
  /-- The comparison loop. -/
  | loop
  /-- The C library, directly or through `__builtin_strcmp`. -/
  | library
  deriving DecidableEq, Repr

/-- The key by which a path compares characters. -/
def StrcmpPath.key (path : StrcmpPath) (sign : CharSign) : UInt8 → ℤ :=
  match path with
  | .loop => sign.toInt
  | .library => CharSign.unsigned.toInt

/-- The keys of a path determine the characters. -/
theorem StrcmpPath.key_injective (path : StrcmpPath) (sign : CharSign) :
    (path.key sign).Injective := by
  cases path with
  | loop => exact sign.toInt_injective
  | library => exact CharSign.unsigned.toInt_injective

/-- The comparison made on a path. -/
def StrcmpPath.run {m : CharMemory} (path : StrcmpPath) (P : Platform) (v1 v2 : CStr m) : ℤ :=
  match path with
  | .loop => constexprStrcmpLoop P.charSign v1 v2
  | .library => P.strcmp.run m v1 v2

section

variable {m : CharMemory} (path : StrcmpPath) (P : Platform) (v1 v2 : CStr m)

/-- A path's result has the sign of the comparison by its key. -/
theorem StrcmpPath.run_sign : (path.run P v1 v2).sign =
    (compareBy (path.key P.charSign) v1.chars v2.chars).sign := by
  cases path with
  | loop => rw [StrcmpPath.run, constexprStrcmpLoop_eq, StrcmpPath.key]
  | library => rw [StrcmpPath.run, P.strcmp.sign_run, StrcmpPath.key]

/-- A path's result is zero exactly on equal strings. -/
theorem StrcmpPath.run_eq_zero : path.run P v1 v2 = 0 ↔ v1.chars = v2.chars := by
  rw [← Int.sign_eq_zero_iff_zero, path.run_sign, Int.sign_eq_zero_iff_zero]
  exact compareBy_eq_zero (path.key_injective _) v1.zero_not_mem_chars v2.zero_not_mem_chars

/-- A path's result is negative exactly when the terminated keys are in order. -/
theorem StrcmpPath.run_neg : path.run P v1 v2 < 0 ↔
    terminatedKeys (path.key P.charSign) v1.chars <
      terminatedKeys (path.key P.charSign) v2.chars := by
  rw [← Int.sign_eq_neg_one_iff_neg, path.run_sign, Int.sign_eq_neg_one_iff_neg]
  exact compareBy_neg_iff (path.key_injective _) v1.zero_not_mem_chars v2.zero_not_mem_chars

/-- `constexpr_strcmp` takes one of the two paths. -/
theorem constexprStrcmp_eq_run :
    ∃ path : StrcmpPath, constexprStrcmp P v1 v2 = path.run P v1 v2 := by
  unfold constexprStrcmp
  cases P.build with
  | builtins isConstant =>
    by_cases h : (isConstantString isConstant v1 && isConstantString isConstant v2) = true
    · exact ⟨.loop, if_pos h⟩
    · exact ⟨.library, if_neg h⟩
  | constexpr14 => exact ⟨.loop, rfl⟩
  | cxx11 => exact ⟨.library, rfl⟩

/-- `constexpr_strcmp` is zero exactly on equal strings, whichever path it takes. -/
theorem constexprStrcmp_eq_zero : constexprStrcmp P v1 v2 = 0 ↔ v1.chars = v2.chars := by
  obtain ⟨path, hpath⟩ := constexprStrcmp_eq_run P v1 v2
  rw [hpath, path.run_eq_zero]

end

/-- All comparisons of strings in a memory take one path. -/
def Platform.ResolvesTo (P : Platform) (m : CharMemory) (path : StrcmpPath) : Prop :=
  ∀ v1 v2 : CStr m, constexprStrcmp P v1 v2 = path.run P v1 v2

/-! ## Agreement of the paths -/

/-- The bytes in which two names first differ agree in their top bit. Names that
do not differ qualify, as do names of seven-bit characters. -/
def SameHalf (s t : List UInt8) : Prop :=
  ∀ c d, firstDifference s t = some (c, d) → (c < 128 ↔ d < 128)

/-- The first difference decides it. -/
instance (s t : List UInt8) : Decidable (SameHalf s t) :=
  match h : firstDifference s t with
  | none => isTrue fun c d hcd => by simp [h] at hcd
  | some (a, b) => decidable_of_iff (a < 128 ↔ b < 128) <| by
      constructor
      · intro hab c d hcd
        rw [h, Option.some.injEq, Prod.mk.injEq] at hcd
        obtain ⟨rfl, rfl⟩ := hcd
        exact hab
      · intro hall
        exact hall a b h

/-- Two differing bytes are ordered alike as signed and as unsigned characters
exactly when their top bits agree. -/
theorem signed_sub_sign_iff {c d : UInt8} (hcd : c ≠ d) :
    (CharSign.signed.toInt c - CharSign.signed.toInt d).sign =
      (CharSign.unsigned.toInt c - CharSign.unsigned.toInt d).sign ↔ (c < 128 ↔ d < 128) := by
  have hc := c.toNat_lt
  have hd := d.toNat_lt
  have hne : c.toNat ≠ d.toNat := fun h => hcd (UInt8.toNat_inj.mp h)
  have hc128 : c < 128 ↔ c.toNat < 128 := UInt8.lt_iff_toNat_lt
  have hd128 : d < 128 ↔ d.toNat < 128 := UInt8.lt_iff_toNat_lt
  have hsame : ∀ x y : ℤ, x ≠ 0 → y ≠ 0 → (x.sign = y.sign ↔ (x < 0 ↔ y < 0)) := by
    intro x y hx hy
    rcases lt_or_gt_of_ne hx with h | h <;> rcases lt_or_gt_of_ne hy with h' | h' <;>
      simp [h, h', Int.sign_eq_neg_one_of_neg, Int.sign_eq_one_of_pos, not_lt_of_gt]
  simp only [CharSign.toInt]
  rw [hsame _ _ (by split <;> split <;> omega) (by omega), hc128, hd128]
  split <;> split <;> omega

/-- The loop and the library agree in sign exactly when plain `char` is unsigned
or the names first differ in bytes with equal top bits. -/
theorem compareBy_sign_eq_iff (sign : CharSign) {s t : List UInt8} (hs : 0 ∉ s) (ht : 0 ∉ t) :
    (compareBy sign.toInt s t).sign = (compareBy CharSign.unsigned.toInt s t).sign ↔
      (sign = .unsigned ∨ SameHalf s t) := by
  cases sign with
  | unsigned => simp
  | signed =>
    simp only [reduceCtorEq, false_or]
    cases hdiff : firstDifference s t with
    | none =>
      have hst := firstDifference_eq_none.mp hdiff
      subst hst
      simp [SameHalf]
    | some pair =>
      obtain ⟨c, d⟩ := pair
      rw [compareBy_of_some hdiff, compareBy_of_some hdiff,
        signed_sub_sign_iff (ne_of_firstDifference hs ht hdiff)]
      constructor
      · intro h c' d' hcd
        rw [hdiff, Option.some.injEq, Prod.mk.injEq] at hcd
        obtain ⟨rfl, rfl⟩ := hcd
        exact h
      · intro h
        exact h c d hdiff

end TypeIndex
