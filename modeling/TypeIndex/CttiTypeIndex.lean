import TypeIndex.Facade
import TypeIndex.Skip

/-!
# The index without RTTI

`ctti_type_index` holds the address of a raw name cut out of a signature. Its
comparisons go through `constexpr_strcmp`, its readable name and its hash code
are computed from the raw name without the characters skipped at the end.
-/

namespace TypeIndex

open CMemory

/-- A `detail::ctti_data`: the characters of a raw name under another type. -/
structure CttiData (m : CharMemory) where
  /-- The raw name that the object stands for. -/
  address : CStr m

/-- A `ctti_type_index`. -/
structure CttiTypeIndex (m : CharMemory) where
  /-- The address of the raw name. -/
  data : CStr m

/-- The space that a compiler may add after a name. -/
def space : UInt8 := 32

/-- The trimming loop of `pretty_name`. At length zero `len - 1` wraps around to
the largest `std::size_t`, an index past the end of every array. -/
def trimTrailingSpaces (m : CharMemory) (rawName : Pointer) : ℕ → Option ℕ
  | 0 => none
  | len + 1 => do
    let c ← m.read (rawName + len)
    if c = space then trimTrailingSpaces m rawName len else some (len + 1)

namespace CttiTypeIndex

variable {m : CharMemory}

/-- The converting constructor from a `ctti_data`. -/
def ofTypeInfo (data : CttiData m) : CttiTypeIndex m := ⟨data.address⟩

/-- The member `type_info`. -/
def typeInfo (self : CttiTypeIndex m) : CttiData m := ⟨self.data⟩

/-- The member `raw_name`. -/
def rawName (self : CttiTypeIndex m) : CStr m := self.data

/-- The member `name`, which is the raw name. -/
def name (self : CttiTypeIndex m) : CStr m := self.data

/-- The member `equal`. -/
def equal (P : Platform) (self rhs : CttiTypeIndex m) : Bool :=
  decide (constexprStrcmp P self.rawName rhs.rawName = 0)

/-- The member `before`. -/
def before (P : Platform) (self rhs : CttiTypeIndex m) : Bool :=
  decide (constexprStrcmp P self.rawName rhs.rawName < 0)

/-- The length of the raw name without the skipped end: the length of the string
that starts as many characters later. -/
def getRawNameLength (S : CttiSkip) (self : CttiTypeIndex m) : Option ℕ :=
  strlen m (self.rawName.ptr + S.sizeAtEnd)

/-- The member `pretty_name`: the raw name without the skipped end and trailing spaces. -/
def prettyName (S : CttiSkip) (self : CttiTypeIndex m) : Option (List UInt8) := do
  let len ← self.getRawNameLength S
  let len ← trimTrailingSpaces m self.rawName.ptr len
  m.readRun self.rawName.ptr len

/-- The member `hash_code`: the hash of the raw name without the skipped end. -/
def hashCode (S : CttiSkip) (hash : List UInt8 → ℕ) (self : CttiTypeIndex m) : Option ℕ := do
  let len ← self.getRawNameLength S
  hashRange hash m self.rawName.ptr (self.rawName.ptr + len)

/-- What `ctti_type_index` offers to its facade. -/
def facade (P : Platform) (S : CttiSkip) (hash : List UInt8 → ℕ) :
    TypeIndexFacade m (CttiTypeIndex m) (CttiData m) where
  rawName := rawName
  equal := equal P
  before := before P
  hashCode := hashCode S hash
  ofTypeInfo := ofTypeInfo

/-! ## The skipped end -/

section Names

variable {self : CttiTypeIndex m} {S : CttiSkip} {text post : List UInt8}

/-- The length of the raw name without the skipped end. -/
theorem getRawNameLength_eq (h : m.StringAt self.rawName.ptr (text ++ post))
    (hpost : post.length = S.sizeAtEnd) : self.getRawNameLength S = some text.length := by
  have hcut := h
  rw [← List.take_append_drop S.sizeAtEnd (text ++ post)] at hcut
  have hlen : S.sizeAtEnd ≤ (text ++ post).length := by
    rw [List.length_append]
    omega
  have hshift := hcut.add
  rw [List.length_take_of_le hlen] at hshift
  rw [getRawNameLength, hshift.strlen, List.length_drop, List.length_append]
  congr 1
  omega

/-- The raw name holds its first part at its address. -/
theorem holdsAt_rawName (h : m.StringAt self.rawName.ptr (text ++ post)) :
    m.HoldsAt self.rawName.ptr text := by
  have hall := h.2
  rw [List.append_assoc] at hall
  exact (List.prefix_append _ _).trans hall

/-- The hash code covers exactly the name in front of the skipped end. -/
theorem hashCode_eq (h : m.StringAt self.rawName.ptr (text ++ post))
    (hpost : post.length = S.sizeAtEnd) (hash : List UInt8 → ℕ) :
    self.hashCode S hash = some (hash text) := by
  rw [hashCode, getRawNameLength_eq h hpost]
  simp [hashRange, (holdsAt_rawName h).readRun]

/-- Trimming stops at once at a character that is no space. -/
theorem trimTrailingSpaces_eq {p : Pointer} (h : m.HoldsAt p text) (hne : text ≠ [])
    (hlast : text.getLast? ≠ some space) :
    trimTrailingSpaces m p text.length = some text.length := by
  obtain ⟨front, c, rfl⟩ := (List.eq_nil_or_concat' text).resolve_left hne
  have hc : c ≠ space := by
    intro hc
    apply hlast
    rw [List.getLast?_append, hc]
    rfl
  have hread : m.read (p + front.length) = some c := by
    have hget := h.read (i := front.length) (by simp)
    simpa using hget
  rw [List.length_append, List.length_singleton, trimTrailingSpaces, hread]
  simp [hc]

/-- The readable name is the name in front of the skipped end. -/
theorem prettyName_eq (h : m.StringAt self.rawName.ptr (text ++ post))
    (hpost : post.length = S.sizeAtEnd) (hne : text ≠ []) (hlast : text.getLast? ≠ some space) :
    self.prettyName S = some text := by
  have hholds := holdsAt_rawName h
  rw [prettyName, getRawNameLength_eq h hpost]
  simp [trimTrailingSpaces_eq hholds hne hlast, hholds.readRun]

end Names

end CttiTypeIndex

/-! ## User-defined parsing -/

/-- A configuration parses a signature: it passes the compile-time check, and the
index made from the signature shows the name. -/
def Parses (S : CttiSkip) (m : CharMemory) (hash : List UInt8 → ℕ) (signature : Pointer)
    (length : ℕ) (name post : List UInt8) : Prop :=
  assertCompileTimeLegths S (length + 1) = true ∧
    ∃ start, cttiN S m signature length = some start ∧ m.StringAt start (name ++ post) ∧
      ∀ index : CttiTypeIndex m, index.rawName.ptr = start →
        index.rawName.chars = name ++ post ∧
        index.getRawNameLength S = some name.length ∧
        index.prettyName S = some name ∧
        index.hashCode S hash = some (hash name)

section Parsing

variable {S : CttiSkip} {m : CharMemory} {hash : List UInt8 → ℕ} {signature : Pointer} {length : ℕ}
  {name post : List UInt8}

/-- A raw name cut out in front of the skipped end shows the name. -/
theorem parses_of_stringAt {start : Pointer}
    (hcheck : S.sizeAtBegin + S.sizeAtEnd ≤ length)
    (hstart : cttiN S m signature length = some start) (hraw : m.StringAt start (name ++ post))
    (hpost : post.length = S.sizeAtEnd) (hne : name ≠ []) (hlast : name.getLast? ≠ some space) :
    Parses S m hash signature length name post := by
  refine ⟨assertCompileTimeLegths_of_le hcheck, start, hstart, hraw, fun index hindex => ?_⟩
  rw [← hindex] at hraw
  exact ⟨hraw.chars_eq, CttiTypeIndex.getRawNameLength_eq hraw hpost,
    CttiTypeIndex.prettyName_eq hraw hpost hne hlast, CttiTypeIndex.hashCode_eq hraw hpost hash⟩

end Parsing

/-- The documented contract of user-defined parsing. Without a run-time search any
signature whose begin and end have the configured lengths is parsed. With a search
the name starts after the first occurrence of the marker behind the begin. -/
theorem userDefinedParsing_contract (m : CharMemory) (hash : List UInt8 → ℕ)
    (signature untilRuntime : Pointer) (pre name post : List UInt8)
    (hne : name ≠ []) (hlast : name.getLast? ≠ some space) :
    (∀ N, m.StringAt signature (pre ++ name ++ post) →
      Parses (makeCttiSkip pre.length post.length false untilRuntime N) m hash signature
        (pre ++ name ++ post).length name post) ∧
    (∀ marker skipped, marker ≠ [] → m.StringAt untilRuntime marker →
      m.StringAt signature (pre ++ skipped ++ marker ++ name ++ post) →
      FirstOccurrence marker (skipped ++ marker ++ name ++ post) skipped.length →
      Parses (makeCttiSkip pre.length post.length true untilRuntime (marker.length + 1)) m hash
        signature (pre ++ skipped ++ marker ++ name ++ post).length name post) := by
  constructor
  · intro N hsig
    rw [List.append_assoc] at hsig ⊢
    obtain ⟨hstart, hraw⟩ := cttiN_of_no_search
      (S := makeCttiSkip pre.length post.length false untilRuntime N) rfl hsig
      (by simp [makeCttiSkip]) rfl
    exact parses_of_stringAt (by simp only [makeCttiSkip, List.length_append]; omega) hstart hraw
      rfl hne hlast
  · intro marker skipped hmarker huntil hsig hfirst
    have hassoc : pre ++ skipped ++ marker ++ name ++ post =
        pre ++ (skipped ++ marker ++ name ++ post) := by simp only [List.append_assoc]
    rw [hassoc] at hsig ⊢
    have hholds : m.HoldsAt untilRuntime marker := (List.prefix_append _ _).trans huntil.2
    obtain ⟨hstart, hraw⟩ := cttiN_of_first
      (S := makeCttiSkip pre.length post.length true untilRuntime (marker.length + 1)) rfl hsig
      (by simp only [makeCttiSkip, List.length_append]; omega) hholds rfl hmarker hfirst
    have hdrop : (skipped ++ marker ++ name ++ post).drop (skipped.length + marker.length) =
        name ++ post := by
      rw [← List.length_append, List.append_assoc (skipped ++ marker), List.drop_left]
    rw [hdrop] at hraw
    exact parses_of_stringAt (by simp only [makeCttiSkip, List.length_append]; omega) hstart hraw
      rfl hne hlast

/-- The signature of the documentation's example, with its marker in a second array. -/
def documentedMemory : CharMemory := fun block =>
  if block = 0 then literal "static const char *boost::detail::ctti<int>::n() [T = int]" ++ [0]
  else literal "T = " ++ [0]

/-- The two configurations that the documentation discusses, on its example. -/
theorem userDefinedParsing_contract_documented :
    Parses (makeCttiSkip 39 1 false ⟨1, 4⟩ 1) documentedMemory List.length ⟨0, 0⟩ 58
      (literal "int>::n() [T = int") (literal "]") ∧
    Parses (makeCttiSkip 39 1 true ⟨1, 0⟩ 5) documentedMemory List.length ⟨0, 0⟩ 58
      (literal "int") (literal "]") := by
  constructor
  · exact (userDefinedParsing_contract documentedMemory List.length ⟨0, 0⟩ ⟨1, 4⟩
      (literal "static const char *boost::detail::ctti<") (literal "int>::n() [T = int")
      (literal "]") (by decide) (by decide)).1 1 (by decide)
  · exact (userDefinedParsing_contract documentedMemory List.length ⟨0, 0⟩ ⟨1, 0⟩
      (literal "static const char *boost::detail::ctti<") (literal "int") (literal "]")
      (by decide) (by decide)).2 (literal "T = ") (literal "int>::n() [") (by decide) (by decide)
      (by decide) (by decide)

end TypeIndex
