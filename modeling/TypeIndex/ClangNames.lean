import TypeIndex.CttiTypeIndex

/-!
# Raw names on Clang

Clang prints the type twice in the signature of `n()`, and the marker `"T = "`
precedes the second copy. The search stops at the first marker, so a name that
contains the marker is cut inside its first copy. The raw name still determines
the type's name.
-/

namespace TypeIndex

open CMemory

/-- The marker of the Clang configuration. -/
def clangMarker : List UInt8 := literal "T = "

/-- The text before the first copy of the name. -/
def clangPrefix : List UInt8 := literal "static const char *boost::detail::ctti<"

/-- The text between the copies of the name. -/
def clangSeparator : List UInt8 := literal ">::n() [T = "

/-- `__PRETTY_FUNCTION__` inside `ctti<T>::n()` for a type with the given name. -/
def clangSignature (name : List UInt8) : List UInt8 :=
  clangPrefix ++ name ++ clangSeparator ++ name ++ literal "]"

/-- The raw name: the rest of the first copy behind a marker in it, if there is
one, and the second copy. -/
def clangRawName (name : List UInt8) : List UInt8 :=
  match findFirst clangMarker name with
  | some k => name.drop (k + clangMarker.length) ++ clangSeparator ++ name ++ literal "]"
  | none => name ++ literal "]"

/-- The marker is no empty text. -/
theorem clangMarker_ne_nil : clangMarker ≠ [] := by decide

/-- The marker between the copies is the first one of the separator and of any text
that continues it. -/
theorem clangSeparator_first (rest : List UInt8) :
    FirstOccurrence clangMarker (literal "::n() [" ++ clangMarker ++ rest) 7 := by
  have hmarker : (84 : UInt8) ∉ literal "::n() [" := by decide
  exact firstOccurrence_of_not_mem hmarker

/-- The first marker behind the prefix lies in the first copy of a name that
contains it, and between the copies otherwise. -/
theorem clang_first (name rest : List UInt8) :
    FirstOccurrence clangMarker (name ++ clangSeparator ++ rest)
      ((findFirst clangMarker name).getD (name.length + 8)) := by
  cases hfind : findFirst clangMarker name with
  | some k =>
    rw [List.append_assoc]
    exact (findFirst_eq_some.mp hfind).append clangMarker_ne_nil _
  | none =>
    have hsplit : name ++ clangSeparator ++ rest =
        name ++ 62 :: (literal "::n() [" ++ clangMarker ++ rest) := by
      rw [List.append_assoc]
      rfl
    rw [hsplit, Option.getD_none]
    exact (clangSeparator_first rest).append_barrier (by decide) (findFirst_eq_none.mp hfind)

/-- What follows the first marker behind the prefix is the raw name. -/
theorem clang_drop (name : List UInt8) :
    (name ++ clangSeparator ++ (name ++ literal "]")).drop
      ((findFirst clangMarker name).getD (name.length + 8) + clangMarker.length) =
        clangRawName name := by
  rw [clangRawName]
  cases hfind : findFirst clangMarker name with
  | some k =>
    have hle := (findFirst_eq_some.mp hfind).1.add_length_le clangMarker_ne_nil
    rw [Option.getD_some, List.append_assoc name, List.drop_append_of_le_length hle]
    simp only [List.append_assoc]
  | none =>
    have hlen : name.length + 8 + clangMarker.length = (name ++ clangSeparator).length := by
      rw [List.length_append]
      rfl
    rw [Option.getD_none, hlen, List.drop_left]

/-- `n()` returns the address of the raw name. -/
theorem cttiN_clang {m : CharMemory} {signature untilRuntime : Pointer} {name : List UInt8}
    (hsig : m.StringAt signature (clangSignature name))
    (huntil : m.HoldsAt untilRuntime clangMarker) :
    ∃ start, cttiN (skip .clang untilRuntime) m signature (clangSignature name).length =
      some start ∧ m.StringAt start (clangRawName name) := by
  have hassoc : clangSignature name =
      clangPrefix ++ (name ++ clangSeparator ++ (name ++ literal "]")) := by
    simp only [clangSignature, List.append_assoc]
  rw [hassoc] at hsig ⊢
  have hlong : (skip .clang untilRuntime).sizeAtEnd ≤
      (name ++ clangSeparator ++ (name ++ literal "]")).length := by
    have hone : (literal "]").length = 1 := rfl
    simp only [List.length_append, hone]
    change 1 ≤ _
    omega
  obtain ⟨hstart, hraw⟩ := cttiN_of_first (S := skip .clang untilRuntime) rfl hsig hlong
    huntil rfl clangMarker_ne_nil (clang_first name _)
  rw [clang_drop] at hraw
  exact ⟨_, hstart, hraw⟩

/-- The raw name determines the name. -/
theorem clangRawName_injective : clangRawName.Injective := by
  have hmixed : ∀ (a b : List UInt8) (k : ℕ), findFirst clangMarker b = none →
      a.drop k ++ clangSeparator ++ a ++ literal "]" ≠ b ++ literal "]" := by
    intro a b k hb h
    have hcut := List.append_cancel_right h
    apply findFirst_eq_none.mp hb ((a.drop k).length + 8)
    rw [← hcut]
    have hsplit : a.drop k ++ clangSeparator ++ a =
        (a.drop k ++ literal ">::n() [") ++ clangMarker ++ a := by
      simp only [List.append_assoc]
      rfl
    have hlen : (a.drop k).length + 8 = (a.drop k ++ literal ">::n() [").length := by
      rw [List.length_append]
      rfl
    rw [hsplit, hlen]
    exact occursAt_append _ _ _
  intro a b h
  rw [clangRawName, clangRawName] at h
  cases ha : findFirst clangMarker a with
  | some i =>
    cases hb : findFirst clangMarker b with
    | some j =>
      rw [ha, hb] at h
      exact eq_of_cut_append clangMarker_ne_nil (findFirst_eq_some.mp ha)
        (findFirst_eq_some.mp hb) (List.append_cancel_right h)
    | none =>
      rw [ha, hb] at h
      exact absurd h (hmixed a b _ hb)
  | none =>
    cases hb : findFirst clangMarker b with
    | some j =>
      rw [ha, hb] at h
      exact absurd h.symm (hmixed b a _ ha)
    | none =>
      rw [ha, hb] at h
      exact List.append_cancel_right h

/-- Identity of types on Clang: the strings returned by `n()` for two types are
equal exactly when the types have one name, also when names contain the marker, and
`equal` tells the types apart accordingly. -/
theorem clang_identity {m : CharMemory} {signatureA signatureB untilRuntime : Pointer}
    {a b : List UInt8} (ha : m.StringAt signatureA (clangSignature a))
    (hb : m.StringAt signatureB (clangSignature b))
    (huntil : m.HoldsAt untilRuntime (clangMarker ++ [0])) :
    ∃ startA startB rawA rawB,
      cttiN (skip .clang untilRuntime) m signatureA (clangSignature a).length = some startA ∧
      cttiN (skip .clang untilRuntime) m signatureB (clangSignature b).length = some startB ∧
      m.StringAt startA rawA ∧ m.StringAt startB rawB ∧ (rawA = rawB ↔ a = b) ∧
      ∀ (P : Platform) (x y : CttiTypeIndex m), x.rawName.ptr = startA → y.rawName.ptr = startB →
        (x.equal P y = true ↔ a = b) := by
  have hmarker : m.HoldsAt untilRuntime clangMarker := (List.prefix_append _ _).trans huntil
  obtain ⟨startA, hstartA, hrawA⟩ := cttiN_clang ha hmarker
  obtain ⟨startB, hstartB, hrawB⟩ := cttiN_clang hb hmarker
  refine ⟨startA, startB, _, _, hstartA, hstartB, hrawA, hrawB, clangRawName_injective.eq_iff,
    fun P x y hx hy => ?_⟩
  rw [← hx] at hrawA
  rw [← hy] at hrawB
  rw [CttiTypeIndex.equal, decide_eq_true_eq, constexprStrcmp_eq_zero, hrawA.chars_eq,
    hrawB.chars_eq]
  exact clangRawName_injective.eq_iff

/-- Two type names, one of which contains the marker, and the marker itself. -/
def clangMemory : CharMemory := fun block =>
  if block = 0 then clangSignature (literal "T = int") ++ [0]
  else if block = 1 then clangSignature (literal "int") ++ [0]
  else clangMarker ++ [0]

/-- The types named `"T = int"` and `"int"` stay distinct. -/
theorem clang_identity_marker :
    ∃ startA startB rawA rawB,
      cttiN (skip .clang ⟨2, 0⟩) clangMemory ⟨0, 0⟩ (clangSignature (literal "T = int")).length =
        some startA ∧
      cttiN (skip .clang ⟨2, 0⟩) clangMemory ⟨1, 0⟩ (clangSignature (literal "int")).length =
        some startB ∧
      clangMemory.StringAt startA rawA ∧ clangMemory.StringAt startB rawB ∧
      (rawA = rawB ↔ literal "T = int" = literal "int") ∧
      ∀ (P : Platform) (x y : CttiTypeIndex clangMemory), x.rawName.ptr = startA →
        y.rawName.ptr = startB → (x.equal P y = true ↔ literal "T = int" = literal "int") :=
  clang_identity (by decide) (by decide) (by decide)

end TypeIndex
