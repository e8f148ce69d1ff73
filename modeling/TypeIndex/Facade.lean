import TypeIndex.Strcmp

/-!
# The comparison operators of `type_index_facade`

A class derives its eighteen comparison operators and `hash_value` from
`equal`, `before` and `hash_code`, which it inherits or redefines. Operands are
indices or `TypeInfo` values. When a class orders its indices by a key in a
linear order, every overload compares the keys, and the laws of a container key
are the laws of that order.
-/

namespace TypeIndex

open CMemory

/-- `boost::hash_range` on the characters between two pointers of one array. The
mixing itself is a parameter. -/
def hashRange (hash : List UInt8 → ℕ) (m : CharMemory) (first last : Pointer) : Option ℕ :=
  (m.readRun first (last.offset - first.offset)).map hash

/-- What a class `Derived` offers to `type_index_facade<Derived, TypeInfo>`. -/
structure TypeIndexFacade (m : CharMemory) (Derived TypeInfo : Type*) where
  /-- The raw name of an index. -/
  rawName : Derived → CStr m
  /-- Equality of indices. -/
  equal : Derived → Derived → Bool
  /-- Whether the first index precedes the second. -/
  before : Derived → Derived → Bool
  /-- The hash code; no result when computing it reads outside an array. -/
  hashCode : Derived → Option ℕ
  /-- The converting constructor from a `TypeInfo`. -/
  ofTypeInfo : TypeInfo → Derived

namespace TypeIndexFacade

variable {m : CharMemory} {Derived TypeInfo : Type*}

/-- The facade's `equal`: the same address or the same characters. -/
def inheritedEqual (strcmp : Strcmp) (rawName : Derived → CStr m) (lhs rhs : Derived) : Bool :=
  let left := rawName lhs
  let right := rawName rhs
  decide (left.ptr = right.ptr) || decide (strcmp.run m left right = 0)

/-- The facade's `before`: a different address and smaller characters. -/
def inheritedBefore (strcmp : Strcmp) (rawName : Derived → CStr m) (lhs rhs : Derived) : Bool :=
  let left := rawName lhs
  let right := rawName rhs
  decide (left.ptr ≠ right.ptr) && decide (strcmp.run m left right < 0)

/-- The facade's `hash_code`: the hash of the whole raw name. -/
def inheritedHashCode (hash : List UInt8 → ℕ) (rawName : Derived → CStr m) (self : Derived) :
    Option ℕ := do
  let nameRaw := (rawName self).ptr
  let length ← strlen m nameRaw
  hashRange hash m nameRaw (nameRaw + length)

/-- A class that redefines none of `equal`, `before` and `hash_code`. -/
def inheriting (strcmp : Strcmp) (hash : List UInt8 → ℕ) (rawName : Derived → CStr m)
    (ofTypeInfo : TypeInfo → Derived) : TypeIndexFacade m Derived TypeInfo where
  rawName := rawName
  equal := inheritedEqual strcmp rawName
  before := inheritedBefore strcmp rawName
  hashCode := inheritedHashCode hash rawName
  ofTypeInfo := ofTypeInfo

variable (F : TypeIndexFacade m Derived TypeInfo)

/-! ### Operators between two indices -/

/-- `lhs == rhs`. -/
def eq (lhs rhs : Derived) : Bool := F.equal lhs rhs

/-- `lhs < rhs`. -/
def lt (lhs rhs : Derived) : Bool := F.before lhs rhs

/-- `lhs > rhs`. -/
def gt (lhs rhs : Derived) : Bool := F.lt rhs lhs

/-- `lhs <= rhs`. -/
def le (lhs rhs : Derived) : Bool := !F.gt lhs rhs

/-- `lhs >= rhs`. -/
def ge (lhs rhs : Derived) : Bool := !F.lt lhs rhs

/-- `lhs != rhs`. -/
def ne (lhs rhs : Derived) : Bool := !F.eq lhs rhs

/-! ### Operators with a `TypeInfo` on the left -/

/-- `lhs == rhs` for a `TypeInfo` on the left. -/
def infoEq (lhs : TypeInfo) (rhs : Derived) : Bool := F.eq (F.ofTypeInfo lhs) rhs

/-- `lhs < rhs` for a `TypeInfo` on the left. -/
def infoLt (lhs : TypeInfo) (rhs : Derived) : Bool := F.lt (F.ofTypeInfo lhs) rhs

/-- `lhs > rhs` for a `TypeInfo` on the left. -/
def infoGt (lhs : TypeInfo) (rhs : Derived) : Bool := F.lt rhs (F.ofTypeInfo lhs)

/-- `lhs <= rhs` for a `TypeInfo` on the left. -/
def infoLe (lhs : TypeInfo) (rhs : Derived) : Bool := !F.gt (F.ofTypeInfo lhs) rhs

/-- `lhs >= rhs` for a `TypeInfo` on the left. -/
def infoGe (lhs : TypeInfo) (rhs : Derived) : Bool := !F.lt (F.ofTypeInfo lhs) rhs

/-- `lhs != rhs` for a `TypeInfo` on the left. -/
def infoNe (lhs : TypeInfo) (rhs : Derived) : Bool := !F.eq (F.ofTypeInfo lhs) rhs

/-! ### Operators with a `TypeInfo` on the right -/

/-- `lhs == rhs` for a `TypeInfo` on the right. -/
def eqInfo (lhs : Derived) (rhs : TypeInfo) : Bool := F.eq lhs (F.ofTypeInfo rhs)

/-- `lhs < rhs` for a `TypeInfo` on the right. -/
def ltInfo (lhs : Derived) (rhs : TypeInfo) : Bool := F.lt lhs (F.ofTypeInfo rhs)

/-- `lhs > rhs` for a `TypeInfo` on the right. -/
def gtInfo (lhs : Derived) (rhs : TypeInfo) : Bool := F.lt (F.ofTypeInfo rhs) lhs

/-- `lhs <= rhs` for a `TypeInfo` on the right. -/
def leInfo (lhs : Derived) (rhs : TypeInfo) : Bool := !F.gt lhs (F.ofTypeInfo rhs)

/-- `lhs >= rhs` for a `TypeInfo` on the right. -/
def geInfo (lhs : Derived) (rhs : TypeInfo) : Bool := !F.lt lhs (F.ofTypeInfo rhs)

/-- `lhs != rhs` for a `TypeInfo` on the right. -/
def neInfo (lhs : Derived) (rhs : TypeInfo) : Bool := !F.eq lhs (F.ofTypeInfo rhs)

/-- The free function `hash_value`. -/
def hashValue (lhs : Derived) : Option ℕ := F.hashCode lhs

/-! ### Overload resolution -/

/-- The six comparison operators. -/
inductive Operator
  | eq
  | lt
  | gt
  | le
  | ge
  | ne
  deriving DecidableEq, Repr

/-- An operand: an index or a `TypeInfo`. -/
inductive Operand (Derived TypeInfo : Type*)
  | index (self : Derived)
  | info (typeInfo : TypeInfo)

/-- The index that an operand stands for. -/
def denote : Operand Derived TypeInfo → Derived
  | .index self => self
  | .info typeInfo => F.ofTypeInfo typeInfo

/-- The operator between two indices. -/
def indexOperator (op : Operator) (lhs rhs : Derived) : Bool :=
  match op with
  | .eq => F.eq lhs rhs
  | .lt => F.lt lhs rhs
  | .gt => F.gt lhs rhs
  | .le => F.le lhs rhs
  | .ge => F.ge lhs rhs
  | .ne => F.ne lhs rhs

/-- The operator between a `TypeInfo` and an index. -/
def infoOperator (op : Operator) (lhs : TypeInfo) (rhs : Derived) : Bool :=
  match op with
  | .eq => F.infoEq lhs rhs
  | .lt => F.infoLt lhs rhs
  | .gt => F.infoGt lhs rhs
  | .le => F.infoLe lhs rhs
  | .ge => F.infoGe lhs rhs
  | .ne => F.infoNe lhs rhs

/-- The operator between an index and a `TypeInfo`. -/
def operatorInfo (op : Operator) (lhs : Derived) (rhs : TypeInfo) : Bool :=
  match op with
  | .eq => F.eqInfo lhs rhs
  | .lt => F.ltInfo lhs rhs
  | .gt => F.gtInfo lhs rhs
  | .le => F.leInfo lhs rhs
  | .ge => F.geInfo lhs rhs
  | .ne => F.neInfo lhs rhs

/-- The overload chosen for an operator and its operands. There is none for two
`TypeInfo` operands. -/
def operator (op : Operator) : Operand Derived TypeInfo → Operand Derived TypeInfo → Option Bool
  | .index lhs, .index rhs => some (F.indexOperator op lhs rhs)
  | .info lhs, .index rhs => some (F.infoOperator op lhs rhs)
  | .index lhs, .info rhs => some (F.operatorInfo op lhs rhs)
  | .info _, .info _ => none

/-- Some overload takes the two operands: one of them is an index. -/
def Comparable : Operand Derived TypeInfo → Operand Derived TypeInfo → Prop
  | .info _, .info _ => False
  | _, _ => True

/-- Operands that are comparable are so in either order. -/
theorem Comparable.symm {x y : Operand Derived TypeInfo} (h : Comparable x y) :
    Comparable y x := by
  cases x <;> cases y <;> simp_all [Comparable]

/-! ## Order by a key -/

/-- The comparison that an operator makes in a linear order. -/
def Operator.compare {K : Type*} [LinearOrder K] : Operator → K → K → Bool
  | .eq, a, b => decide (a = b)
  | .lt, a, b => decide (a < b)
  | .gt, a, b => decide (b < a)
  | .le, a, b => decide (a ≤ b)
  | .ge, a, b => decide (b ≤ a)
  | .ne, a, b => decide (a ≠ b)

/-- Indices are ordered by a key in a linear order, and those that are valid for
hashing have a hash code that follows the key. -/
structure KeyedBy {K : Type*} [LinearOrder K] (key : Derived → K) (valid : Derived → Prop) :
    Prop where
  /-- Indices are equal when their keys are. -/
  equal_iff : ∀ a b, F.equal a b = true ↔ key a = key b
  /-- An index precedes another when its key does. -/
  before_iff : ∀ a b, F.before a b = true ↔ key a < key b
  /-- Valid indices with one key have one hash code. -/
  hashCode_eq : ∀ a b, valid a → valid b → key a = key b →
    ∃ code, F.hashCode a = some code ∧ F.hashCode b = some code

variable {F} {K : Type*} [LinearOrder K] {key : Derived → K} {valid : Derived → Prop}

/-- Every overload gives the answer of the operator between the two indices. -/
theorem operator_eq_indexOperator (op : Operator) {x y : Operand Derived TypeInfo}
    (hxy : Comparable x y) :
    F.operator op x y = some (F.indexOperator op (F.denote x) (F.denote y)) := by
  cases x with
  | index a => cases y <;> cases op <;> rfl
  | info s =>
    cases y with
    | index b => cases op <;> rfl
    | info t => exact hxy.elim

/-- Every operator between indices compares their keys. -/
theorem KeyedBy.indexOperator_eq (h : F.KeyedBy key valid) (op : Operator) (a b : Derived) :
    F.indexOperator op a b = op.compare (key a) (key b) := by
  rw [Bool.eq_iff_iff]
  have heq := h.equal_iff a b
  have hlt := h.before_iff a b
  have hgt := h.before_iff b a
  cases op with
  | eq => simpa [indexOperator, eq, Operator.compare] using heq
  | lt => simpa [indexOperator, lt, Operator.compare] using hlt
  | gt => simpa [indexOperator, gt, lt, Operator.compare] using hgt
  | le =>
    simp only [indexOperator, le, gt, lt, Operator.compare, Bool.not_eq_true', decide_eq_true_eq]
    rw [← Bool.not_eq_true, hgt, not_lt]
  | ge =>
    simp only [indexOperator, ge, lt, Operator.compare, Bool.not_eq_true', decide_eq_true_eq]
    rw [← Bool.not_eq_true, hlt, not_lt]
  | ne =>
    simp only [indexOperator, ne, eq, Operator.compare, Bool.not_eq_true', decide_eq_true_eq]
    rw [← Bool.not_eq_true, heq]

/-- Every overload of every operator compares the keys of its operands. -/
theorem KeyedBy.operator_eq (h : F.KeyedBy key valid) (op : Operator)
    {x y : Operand Derived TypeInfo} (hxy : Comparable x y) :
    F.operator op x y = some (op.compare (key (F.denote x)) (key (F.denote y))) := by
  rw [operator_eq_indexOperator op hxy, h.indexOperator_eq]

variable (F)

/-- The laws that ordered and unordered containers rely on, over every way of
presenting the operands for which an overload exists. Hashing is restricted to
valid indices. -/
structure ContainerKey (valid : Derived → Prop) : Prop where
  /-- Presentations of one index are equal. -/
  eq_refl : ∀ x y, Comparable x y → F.denote x = F.denote y → F.operator .eq x y = some true
  /-- Equality is symmetric. -/
  eq_symm : ∀ x y, F.operator .eq x y = some true → F.operator .eq y x = some true
  /-- Equality is transitive. -/
  eq_trans : ∀ x y z, Comparable x z → F.operator .eq x y = some true →
    F.operator .eq y z = some true → F.operator .eq x z = some true
  /-- Exactly one of the three comparisons holds. -/
  trichotomy : ∀ x y, Comparable x y →
    (F.operator .lt x y = some true ∧ F.operator .eq x y = some false ∧
      F.operator .lt y x = some false) ∨
    (F.operator .lt x y = some false ∧ F.operator .eq x y = some true ∧
      F.operator .lt y x = some false) ∨
    (F.operator .lt x y = some false ∧ F.operator .eq x y = some false ∧
      F.operator .lt y x = some true)
  /-- The order is transitive. -/
  lt_trans : ∀ x y z, Comparable x z → F.operator .lt x y = some true →
    F.operator .lt y z = some true → F.operator .lt x z = some true
  /-- `>` is the converse of `<`. -/
  gt_eq : ∀ x y, F.operator .gt x y = F.operator .lt y x
  /-- `<=` is the complement of `>`. -/
  le_eq : ∀ x y, F.operator .le x y = (F.operator .gt x y).map not
  /-- `>=` is the complement of `<`. -/
  ge_eq : ∀ x y, F.operator .ge x y = (F.operator .lt x y).map not
  /-- `!=` is the negation of `==`. -/
  ne_eq : ∀ x y, F.operator .ne x y = (F.operator .eq x y).map not
  /-- Equal operands have the same hash code. -/
  hash_eq : ∀ x y, valid (F.denote x) → valid (F.denote y) → F.operator .eq x y = some true →
    ∃ code, F.hashValue (F.denote x) = some code ∧ F.hashValue (F.denote y) = some code

variable {F}

/-- Where an overload has an answer its operands are comparable. -/
theorem comparable_of_operator {op : Operator} {x y : Operand Derived TypeInfo} {r : Bool}
    (h : F.operator op x y = some r) : Comparable x y := by
  cases x <;> cases y <;> simp_all [operator, Comparable]

/-- In every overload `>` exchanges the operands of `<`. -/
theorem operator_gt (F : TypeIndexFacade m Derived TypeInfo) (x y : Operand Derived TypeInfo) :
    F.operator .gt x y = F.operator .lt y x := by
  cases x <;> cases y <;> rfl

/-- In every overload `<=` negates `>`. -/
theorem operator_le (F : TypeIndexFacade m Derived TypeInfo) (x y : Operand Derived TypeInfo) :
    F.operator .le x y = (F.operator .gt x y).map not := by
  cases x <;> cases y <;> rfl

/-- In every overload `>=` negates `<`. -/
theorem operator_ge (F : TypeIndexFacade m Derived TypeInfo) (x y : Operand Derived TypeInfo) :
    F.operator .ge x y = (F.operator .lt x y).map not := by
  cases x <;> cases y <;> rfl

/-- In every overload `!=` negates `==`. -/
theorem operator_ne (F : TypeIndexFacade m Derived TypeInfo) (x y : Operand Derived TypeInfo) :
    F.operator .ne x y = (F.operator .eq x y).map not := by
  cases x <;> cases y <;> rfl

/-- A class ordered by a key is a container key. -/
theorem KeyedBy.containerKey (h : F.KeyedBy key valid) : F.ContainerKey valid where
  eq_refl x y hxy hden := by simp [h.operator_eq .eq hxy, Operator.compare, hden]
  eq_symm x y hxy := by
    have hc := comparable_of_operator hxy
    rw [h.operator_eq .eq hc] at hxy
    rw [h.operator_eq .eq hc.symm]
    simpa [Operator.compare, eq_comm] using hxy
  eq_trans x y z hxz hxy hyz := by
    rw [h.operator_eq .eq (comparable_of_operator hxy)] at hxy
    rw [h.operator_eq .eq (comparable_of_operator hyz)] at hyz
    simp only [Operator.compare, Option.some.injEq, decide_eq_true_eq] at hxy hyz
    simp [h.operator_eq .eq hxz, Operator.compare, hxy, hyz]
  trichotomy x y hxy := by
    rw [h.operator_eq .lt hxy, h.operator_eq .eq hxy, h.operator_eq .lt hxy.symm]
    simp only [Operator.compare, Option.some.injEq, decide_eq_true_eq, decide_eq_false_iff_not]
    rcases lt_trichotomy (key (F.denote x)) (key (F.denote y)) with hlt | heq | hgt
    · exact Or.inl ⟨hlt, hlt.ne, hlt.not_gt⟩
    · exact Or.inr (Or.inl ⟨heq.not_lt, heq, heq.not_gt⟩)
    · exact Or.inr (Or.inr ⟨hgt.not_gt, hgt.ne', hgt⟩)
  lt_trans x y z hxz hxy hyz := by
    rw [h.operator_eq .lt (comparable_of_operator hxy)] at hxy
    rw [h.operator_eq .lt (comparable_of_operator hyz)] at hyz
    rw [h.operator_eq .lt hxz]
    simp only [Operator.compare, Option.some.injEq, decide_eq_true_eq] at hxy hyz ⊢
    exact hxy.trans hyz
  gt_eq := operator_gt F
  le_eq := operator_le F
  ge_eq := operator_ge F
  ne_eq := operator_ne F
  hash_eq x y hx hy hxy := by
    rw [h.operator_eq .eq (comparable_of_operator hxy)] at hxy
    have hkey : key (F.denote x) = key (F.denote y) := by simpa [Operator.compare] using hxy
    exact h.hashCode_eq _ _ hx hy hkey

/-! ## Names at different addresses -/

/-- Two classes give the same answers for operands with the same raw names,
wherever these names are stored. -/
structure SameAnswers {m' : CharMemory} {Derived' TypeInfo' : Type*}
    (F : TypeIndexFacade m Derived TypeInfo) (F' : TypeIndexFacade m' Derived' TypeInfo')
    (valid : Derived → Prop) (valid' : Derived' → Prop) : Prop where
  /-- Every overload of every operator gives the same answer. -/
  operator_eq : ∀ (x y : Operand Derived TypeInfo) (x' y' : Operand Derived' TypeInfo'),
    Comparable x y → Comparable x' y' →
    (F.rawName (F.denote x)).chars = (F'.rawName (F'.denote x')).chars →
    (F.rawName (F.denote y)).chars = (F'.rawName (F'.denote y')).chars →
    ∀ op, F.operator op x y = F'.operator op x' y'
  /-- Valid operands have the same hash code. -/
  hashValue_eq : ∀ (x : Operand Derived TypeInfo) (x' : Operand Derived' TypeInfo'),
    valid (F.denote x) → valid' (F'.denote x') →
    (F.rawName (F.denote x)).chars = (F'.rawName (F'.denote x')).chars →
    F.hashValue (F.denote x) = F'.hashValue (F'.denote x')

/-- Classes keyed by one function of the raw name, with hash codes that are one
function of it, give the same answers. -/
theorem sameAnswers_of_keyedBy {m' : CharMemory} {Derived' TypeInfo' : Type*}
    {F : TypeIndexFacade m Derived TypeInfo} {F' : TypeIndexFacade m' Derived' TypeInfo'}
    {valid' : Derived' → Prop} (nameKey : List UInt8 → K) (code : List UInt8 → Option ℕ)
    (h : F.KeyedBy (fun d => nameKey (F.rawName d).chars) valid)
    (h' : F'.KeyedBy (fun d => nameKey (F'.rawName d).chars) valid')
    (hcode : ∀ d, valid d → F.hashCode d = code (F.rawName d).chars)
    (hcode' : ∀ d, valid' d → F'.hashCode d = code (F'.rawName d).chars) :
    F.SameAnswers F' valid valid' where
  operator_eq x y x' y' hxy hxy' hx hy op := by
    rw [h.operator_eq op hxy, h'.operator_eq op hxy', hx, hy]
  hashValue_eq x x' hvalid hvalid' hx := by
    rw [hashValue, hashValue, hcode _ hvalid, hcode' _ hvalid', hx]

/-! ## Classes that inherit everything -/

section Inheriting

variable (strcmp : Strcmp) (hash : List UInt8 → ℕ) (rawName : Derived → CStr m)
  (ofTypeInfo : TypeInfo → Derived)

/-- The library's comparison of two names is the order of their terminated bytes. -/
theorem strcmp_neg_iff (v1 v2 : CStr m) : strcmp.run m v1 v2 < 0 ↔
    terminatedKeys CharSign.unsigned.toInt v1.chars <
      terminatedKeys CharSign.unsigned.toInt v2.chars := by
  rw [← Int.sign_eq_neg_one_iff_neg, strcmp.sign_run, Int.sign_eq_neg_one_iff_neg]
  exact compareBy_neg_iff CharSign.unsigned.toInt_injective v1.zero_not_mem_chars
    v2.zero_not_mem_chars

/-- The comparison yields zero exactly for equal strings. -/
theorem strcmp_eq_zero_iff (v1 v2 : CStr m) : strcmp.run m v1 v2 = 0 ↔ v1.chars = v2.chars := by
  rw [← Int.sign_eq_zero_iff_zero, strcmp.sign_run, Int.sign_eq_zero_iff_zero]
  exact compareBy_eq_zero CharSign.unsigned.toInt_injective v1.zero_not_mem_chars
    v2.zero_not_mem_chars

/-- The address test of the inherited `equal` changes no answer. -/
theorem inheritedEqual_iff (a b : Derived) :
    inheritedEqual strcmp rawName a b = true ↔ (rawName a).chars = (rawName b).chars := by
  simp only [inheritedEqual, Bool.or_eq_true, decide_eq_true_eq, strcmp_eq_zero_iff]
  constructor
  · rintro (hptr | hchars)
    · rw [CStr.chars, CStr.chars, hptr]
    · exact hchars
  · exact Or.inr

/-- Neither does the address test of the inherited `before`. -/
theorem inheritedBefore_iff (a b : Derived) :
    inheritedBefore strcmp rawName a b = true ↔
      terminatedKeys CharSign.unsigned.toInt (rawName a).chars <
        terminatedKeys CharSign.unsigned.toInt (rawName b).chars := by
  simp only [inheritedBefore, Bool.and_eq_true, decide_eq_true_eq, strcmp_neg_iff]
  constructor
  · exact And.right
  · intro hlt
    refine ⟨fun hptr => ?_, hlt⟩
    rw [CStr.chars, CStr.chars, hptr] at hlt
    exact lt_irrefl _ hlt

/-- The inherited hash code is the hash of the characters of the raw name. -/
theorem inheritedHashCode_eq (self : Derived) :
    inheritedHashCode hash rawName self = some (hash (rawName self).chars) := by
  have hstr := (rawName self).stringAt_chars
  have hholds : m.HoldsAt (rawName self).ptr (rawName self).chars :=
    (List.prefix_append _ _).trans hstr.2
  simp [inheritedHashCode, hstr.strlen, hashRange, hholds.readRun]

/-- A class that inherits everything is ordered by the bytes of its raw names. -/
theorem inheriting_keyedBy :
    (inheriting strcmp hash rawName ofTypeInfo).KeyedBy
      (fun d => terminatedKeys CharSign.unsigned.toInt (rawName d).chars) (fun _ => True) where
  equal_iff a b := by
    rw [show (inheriting strcmp hash rawName ofTypeInfo).equal a b =
      inheritedEqual strcmp rawName a b from rfl, inheritedEqual_iff]
    exact (terminatedKeys_injective CharSign.unsigned.toInt_injective).eq_iff.symm
  before_iff a b := inheritedBefore_iff strcmp rawName a b
  hashCode_eq a b _ _ hkey := by
    have hchars := terminatedKeys_injective CharSign.unsigned.toInt_injective hkey
    refine ⟨hash (rawName a).chars, inheritedHashCode_eq hash rawName a, ?_⟩
    rw [hchars]
    exact inheritedHashCode_eq hash rawName b

end Inheriting

end TypeIndexFacade

end TypeIndex
