import TypeIndex.ClangNames
import TypeIndex.Identities

/-!
# Readable names of the two backends

Both backends show a type by undoing a decoration of its printed name: one removes
`detail::cvr_saver` from the demangled name, the other cuts the name out of Clang's
signature. Each searches for the first place that looks like its decoration, which
may lie inside the name itself. Names without such places are shown alike.
-/

namespace TypeIndex

open CMemory

/-- The text behind the first `cvr_saver` in a name contains a closing bracket after
its first character, so that the name looks like a decorated one. -/
def LooksSaved (name : List UInt8) : Prop :=
  ∃ k c rest, FirstOccurrence cvrSaverName name k ∧
    (name.drop (k + cvrSaverName.length)).dropWhile (· = space) = c :: rest ∧
    closingBracket ∈ rest

/-! ## The demangled name -/

section Undecorated

variable {name : List UInt8} {k : ℕ}

/-- The bracketed part lies before the last bracket. -/
theorem bracketed_append {text rest : List UInt8} (hrest : closingBracket ∉ rest) :
    bracketed (text ++ closingBracket :: rest) = text.rdropWhile (· = space) := by
  have hkept : (text ++ closingBracket :: rest).rdropWhile (· ≠ closingBracket) =
      text ++ [closingBracket] := by
    rw [List.rdropWhile, List.reverse_append, List.reverse_cons, List.append_assoc,
      List.dropWhile_append_of_pos]
    · rw [List.singleton_append, List.dropWhile_cons_of_neg (by simp), ← List.reverse_concat,
        List.reverse_reverse]
    · intro c hc
      rw [List.mem_reverse] at hc
      simpa using ne_of_mem_of_not_mem hc hrest
  rw [bracketed, hkept, List.dropLast_concat]

/-- A text without brackets has no bracketed part. -/
theorem bracketed_of_not_mem {text : List UInt8} (h : closingBracket ∉ text) :
    bracketed text = [] := by
  have hkept : text.rdropWhile (· ≠ closingBracket) = [] := by
    rw [List.rdropWhile_eq_nil_iff]
    intro c hc
    simpa using ne_of_mem_of_not_mem hc h
  rw [bracketed, hkept]
  rfl

/-- A text that contains a bracket, cut at the last one. -/
theorem exists_last_bracket {text : List UInt8} (h : closingBracket ∈ text) :
    ∃ front rest, text = front ++ closingBracket :: rest ∧ closingBracket ∉ rest := by
  obtain ⟨before, after, hsplit, hbefore⟩ :=
    List.eq_append_cons_of_mem (List.mem_reverse.mpr h)
  refine ⟨after.reverse, before.reverse, ?_, by simpa using hbefore⟩
  rw [← List.reverse_reverse text, hsplit, List.reverse_append, List.reverse_cons,
    List.append_assoc]
  rfl

/-- A text has a bracketed part when a bracket follows its first character. -/
theorem bracketed_ne_nil_iff {c : UInt8} {rest : List UInt8} (hc : c ≠ space) :
    bracketed (c :: rest) ≠ [] ↔ closingBracket ∈ rest := by
  by_cases hrest : closingBracket ∈ rest
  · obtain ⟨front, after, rfl, hafter⟩ := exists_last_bracket hrest
    refine iff_of_true ?_ hrest
    rw [← List.cons_append, bracketed_append hafter, Ne, List.rdropWhile_eq_nil_iff]
    intro hall
    exact hc (by simpa using hall c List.mem_cons_self)
  · refine iff_of_false (not_not_intro ?_) hrest
    by_cases hbracket : c = closingBracket
    · rw [hbracket, ← List.nil_append (closingBracket :: rest), bracketed_append hrest]
      rfl
    · exact bracketed_of_not_mem (by simp [Ne.symm hbracket, hrest])

/-- The text behind a decoration and the spaces does not start with a space. -/
theorem bracketed_dropWhile_ne_nil_iff {text : List UInt8} :
    bracketed (text.dropWhile (· = space)) ≠ [] ↔
      ∃ c rest, text.dropWhile (· = space) = c :: rest ∧ closingBracket ∈ rest := by
  cases hbehind : text.dropWhile (· = space) with
  | nil => simp [bracketed]
  | cons c rest =>
    have hc : c ≠ space := by
      have hne : text.dropWhile (· = space) ≠ [] := by
        rw [hbehind]
        simp
      have hhead := List.head_dropWhile_not _ hne
      simp only [hbehind, List.head_cons] at hhead
      simpa using hhead
    rw [bracketed_ne_nil_iff hc]
    simp

/-- A saved name is shorter than the name it was found in. -/
theorem savedName_length_lt (hfirst : FirstOccurrence cvrSaverName name k) :
    (savedName name k).length < name.length := by
  have hocc := hfirst.1.add_length_le (by decide)
  have hpos : 0 < cvrSaverName.length := by decide
  have hbracketed := (List.rdropWhile_prefix (· = space) _).length_le.trans
    ((List.dropLast_prefix _).trans (List.rdropWhile_prefix (· ≠ closingBracket)
      ((name.drop (k + cvrSaverName.length)).dropWhile (· = space)))).length_le
  have hspaces := (List.dropWhile_suffix (l := name.drop (k + cvrSaverName.length))
    (· = space)).length_le
  rw [List.length_drop] at hspaces
  unfold savedName bracketed
  omega

/-- An undecorated name is shown as it is exactly when it does not look saved. -/
theorem undecorated_eq_self_iff : undecorated name = name ↔ ¬ LooksSaved name := by
  cases hfind : findFirst cvrSaverName name with
  | none =>
    refine iff_of_true (undecorated_of_none hfind) ?_
    rintro ⟨k, c, rest, hfirst, -⟩
    rw [findFirst_eq_some.mpr hfirst] at hfind
    cases hfind
  | some k =>
    have hfirst := findFirst_eq_some.mp hfind
    have hlooks : LooksSaved name ↔ savedName name k ≠ [] := by
      rw [savedName, bracketed_dropWhile_ne_nil_iff]
      constructor
      · rintro ⟨j, c, rest, hj, hrest⟩
        rw [hj.unique hfirst] at hrest
        exact ⟨c, rest, hrest⟩
      · rintro ⟨c, rest, hrest⟩
        exact ⟨k, c, rest, hfirst, hrest⟩
    rw [hlooks, not_not, undecorated_of_some hfind]
    by_cases hempty : savedName name k = []
    · rw [if_pos hempty]
      exact iff_of_true rfl hempty
    · rw [if_neg hempty]
      refine iff_of_false (fun h => ?_) hempty
      have hlt := savedName_length_lt hfirst
      rw [h] at hlt
      exact lt_irrefl _ hlt

/-- The decoration does not overlap itself. -/
theorem cvrSaverName_first {before rest : List UInt8}
    (hbefore : ∀ k, ¬ OccursAt cvrSaverName before k) :
    FirstOccurrence cvrSaverName (before ++ cvrSaverName ++ rest) before.length := by
  have hsplit : cvrSaverName = literal "boost::typeindex::detail::cvr_saver" ++ [60] := by decide
  rw [hsplit] at hbefore ⊢
  exact firstOccurrence_of_last (by decide) hbefore

/-- A name that ends in no space is what is left of it and spaces behind it. -/
theorem rdropWhile_append_spaces (hlast : name.getLast? ≠ some space) (j : ℕ) :
    (name ++ List.replicate j space).rdropWhile (· = space) = name := by
  induction j with
  | zero =>
    rw [List.replicate_zero, List.append_nil, List.rdropWhile_eq_self_iff]
    intro hne h
    rw [List.getLast?_eq_some_getLast hne] at hlast
    exact hlast (congrArg some (of_decide_eq_true h))
  | succ j ih =>
    rw [List.replicate_succ', ← List.append_assoc, List.rdropWhile_concat_pos _ _ _ (by simp)]
    exact ih

/-- The saved name behind the decoration, the spaces around it left out. -/
theorem savedName_decorated {before after : List UInt8} (hafter : closingBracket ∉ after)
    (hne : name ≠ []) (hhead : name.head? ≠ some space) (hlast : name.getLast? ≠ some space)
    (i j : ℕ) :
    savedName (before ++ cvrSaverName ++
      (List.replicate i space ++ name ++ List.replicate j space ++ closingBracket :: after))
      before.length = name := by
  have hspaces : ∀ c ∈ List.replicate i space, decide (c = space) = true := by
    intro c hc
    exact decide_eq_true (List.eq_of_mem_replicate hc)
  have hbehind : (List.replicate i space ++ name ++ List.replicate j space ++
      closingBracket :: after).dropWhile (· = space) =
        name ++ List.replicate j space ++ closingBracket :: after := by
    simp only [List.append_assoc]
    rw [List.dropWhile_append_of_pos hspaces]
    cases name with
    | nil => exact absurd rfl hne
    | cons c name =>
      have hc : c ≠ space := fun h => hhead (congrArg some h)
      rw [List.cons_append, List.dropWhile_cons_of_neg (by simpa using hc)]
  rw [savedName, ← List.length_append, List.drop_left, hbehind, bracketed_append hafter,
    rdropWhile_append_spaces hlast]

/-- The decoration is removed, whatever the saved name contains. -/
theorem undecorated_saved {before after : List UInt8}
    (hbefore : ∀ k, ¬ OccursAt cvrSaverName before k) (hafter : closingBracket ∉ after)
    (hne : name ≠ []) (hhead : name.head? ≠ some space) (hlast : name.getLast? ≠ some space)
    (i j : ℕ) :
    undecorated (before ++ cvrSaverName ++
      (List.replicate i space ++ name ++ List.replicate j space ++ closingBracket :: after)) =
      name := by
  rw [undecorated_of_some (findFirst_eq_some.mpr (cvrSaverName_first hbefore)),
    savedName_decorated hafter hne hhead hlast, if_neg hne]

/-- The decoration around a whole name is removed. -/
theorem undecorated_decorated (hne : name ≠ []) (hhead : name.head? ≠ some space)
    (hlast : name.getLast? ≠ some space) :
    undecorated (cvrSaverName ++ name ++ literal ">") = name := by
  have hbefore : ∀ k, ¬ OccursAt cvrSaverName [] k := by
    intro k hocc
    have hlen := hocc.add_length_le (by decide)
    have hpos : 0 < cvrSaverName.length := by decide
    rw [List.length_nil] at hlen
    omega
  have hbracket : literal ">" = [closingBracket] := rfl
  have hsaved := undecorated_saved hbefore List.not_mem_nil hne hhead hlast 0 0
  simpa only [List.nil_append, List.replicate_zero, List.append_nil, List.append_assoc,
    hbracket] using hsaved

end Undecorated

/-! ## The name in Clang's signature -/

/-- The name shown for a raw name on Clang: all of it but the bracket. -/
def clangShownName (name : List UInt8) : List UInt8 :=
  match findFirst clangMarker name with
  | some k => name.drop (k + clangMarker.length) ++ clangSeparator ++ name
  | none => name

/-- The raw name on Clang is the shown one and a bracket. -/
theorem clangRawName_eq (name : List UInt8) :
    clangRawName name = clangShownName name ++ literal "]" := by
  unfold clangRawName clangShownName
  cases findFirst clangMarker name <;> rfl

/-- A name is shown as it is exactly when it does not contain the marker. -/
theorem clangShownName_eq_self_iff {name : List UInt8} :
    clangShownName name = name ↔ ∀ k, ¬ OccursAt clangMarker name k := by
  rw [← findFirst_eq_none]
  unfold clangShownName
  cases hfind : findFirst clangMarker name with
  | none => exact iff_of_true rfl rfl
  | some k =>
    refine iff_of_false (fun h => ?_) (by simp)
    have hlen := congrArg List.length h
    have hpos : clangSeparator.length = 12 := rfl
    simp only [List.length_append, hpos] at hlen
    omega

/-- A name stays at the end of what is shown for it. -/
theorem suffix_clangShownName (name : List UInt8) : name <:+ clangShownName name := by
  unfold clangShownName
  cases findFirst clangMarker name with
  | none => exact List.suffix_refl _
  | some k => exact List.suffix_append _ _

/-! ## Both names -/

/-- The compiler spells a type's name alike in Clang's signature of `n()` and in the
demangled name of the type that is passed to `typeid`. -/
structure SpelledAlike {α : Type*} {m : CharMemory} {Info : Type*} (K : Toolchain α m Info)
    (untilRuntime signature : Pointer) (T : CppType α) (name : List UInt8) : Prop where
  /-- The name is not empty. -/
  ne_nil : name ≠ []
  /-- The name does not start with a space. -/
  head_ne : name.head? ≠ some space
  /-- The name does not end in a space. -/
  last_ne : name.getLast? ≠ some space
  /-- The marker is stored as a string literal. -/
  marker : m.HoldsAt untilRuntime (clangMarker ++ [0])
  /-- The signature has Clang's format. -/
  signature_eq : m.StringAt signature (clangSignature name)
  /-- `n()` cuts its result out of the signature. -/
  n_eq : cttiN (skip .clang untilRuntime) m signature (clangSignature name).length =
    some (K.n T).ptr
  /-- The demangled name is the name, inside a `cvr_saver` for a decorated type. -/
  demangled : ∃ v, K.demangle (K.typeInfo.name (K.typeid T.saved)) = some v ∧
    v.chars = if T.isQualified then cvrSaverName ++ name ++ literal ">" else name

/-- Both backends show the name. -/
def ShowsAlike {α : Type*} {m : CharMemory} {Info : Type*} (K : Toolchain α m Info)
    (untilRuntime : Pointer) (T : CppType α) (name : List UInt8) : Prop :=
  (StlTypeIndex.typeIdWithCvr K T).prettyName K.typeInfo K.demangle = some (.ok name) ∧
    (CttiTypeIndex.typeIdWithCvr K T).prettyName (skip .clang untilRuntime) = some name

section Shown

variable {α : Type*} {m : CharMemory} {Info : Type*} {K : Toolchain α m Info}
  {untilRuntime signature : Pointer} {T : CppType α} {name : List UInt8}

/-- What `stl_type_index` shows for a name spelled alike. -/
theorem SpelledAlike.stl_prettyName (h : SpelledAlike K untilRuntime signature T name) :
    (StlTypeIndex.typeIdWithCvr K T).prettyName K.typeInfo K.demangle =
      some (.ok (if T.isQualified then name else undecorated name)) := by
  obtain ⟨v, hv, hchars⟩ := h.demangled
  have hpretty : (StlTypeIndex.typeIdWithCvr K T).prettyName K.typeInfo K.demangle =
      some (.ok (undecorated v.chars)) := StlTypeIndex.prettyName_eq hv
  rw [hpretty, hchars]
  cases T.isQualified with
  | true => rw [if_pos rfl, if_pos rfl, undecorated_decorated h.ne_nil h.head_ne h.last_ne]
  | false => rfl

/-- What `ctti_type_index` shows for a name spelled alike. -/
theorem SpelledAlike.ctti_prettyName (h : SpelledAlike K untilRuntime signature T name) :
    (CttiTypeIndex.typeIdWithCvr K T).prettyName (skip .clang untilRuntime) =
      some (clangShownName name) := by
  have hmarker : m.HoldsAt untilRuntime clangMarker := (List.prefix_append _ _).trans h.marker
  obtain ⟨start, hstart, hraw⟩ := cttiN_clang h.signature_eq hmarker
  rw [h.n_eq, Option.some.injEq] at hstart
  rw [← hstart, clangRawName_eq] at hraw
  obtain ⟨front, hfront⟩ := suffix_clangShownName name
  refine CttiTypeIndex.prettyName_eq hraw rfl ?_ ?_
  · rw [← hfront]
    exact List.append_ne_nil_of_right_ne_nil _ h.ne_nil
  · rw [← hfront, List.getLast?_append_of_ne_nil _ h.ne_nil]
    exact h.last_ne

end Shown

/-- Both backends show a name spelled alike exactly when it does not contain Clang's
marker, and either the type is decorated or its name does not look like one saved in a
`cvr_saver`. -/
theorem showsAlike_iff {α : Type*} {m : CharMemory} {Info : Type*} {K : Toolchain α m Info}
    {untilRuntime signature : Pointer} {T : CppType α} {name : List UInt8}
    (h : SpelledAlike K untilRuntime signature T name) :
    ShowsAlike K untilRuntime T name ↔
      (∀ k, ¬ OccursAt clangMarker name k) ∧ (T.isQualified = true ∨ ¬ LooksSaved name) := by
  rw [ShowsAlike, h.stl_prettyName, h.ctti_prettyName, Option.some.injEq, Option.some.injEq,
    Except.ok.injEq, clangShownName_eq_self_iff, and_comm]
  refine and_congr_right fun _ => ?_
  cases T.isQualified with
  | true => simp
  | false => simp [undecorated_eq_self_iff]

/-! ## A type with the decoration in its own name -/

/-- The name of the class `detail::cvr_saver<int>`. -/
def saverName : List UInt8 := literal "boost::typeindex::detail::cvr_saver<int>"

/-- Its signature, the marker, and its mangled and demangled names. -/
def saverMemory : CharMemory := fun block =>
  if block = 0 then clangSignature saverName ++ [0]
  else if block = 1 then clangMarker ++ [0]
  else if block = 2 then literal "N5boost9typeindex6detail9cvr_saverIiEE" ++ [0]
  else saverName ++ [0]

/-- What a toolchain provides for the class `detail::cvr_saver<int>`. -/
def saverToolchain : Toolchain Unit saverMemory Unit where
  typeInfo :=
    { name := fun _ => ⟨⟨2, 0⟩, by decide⟩
      rawName := fun _ => ⟨⟨2, 0⟩, by decide⟩
      eq := fun _ _ => true
      before := fun _ _ => false
      hashCode := fun _ => 0 }
  typeid _ := ()
  demangle _ := some ⟨⟨3, 0⟩, by decide⟩
  n _ := ⟨⟨0, 91⟩, by decide⟩

/-- The class `detail::cvr_saver<int>` as a type. -/
def saverType : CppType Unit := CppType.cvrSaver ⟨.other (), false, false, .none⟩

/-- A class `cvr_saver` and its name meet the conditions. -/
theorem saver_spelledAlike :
    SpelledAlike saverToolchain ⟨1, 0⟩ ⟨0, 0⟩ saverType saverName where
  ne_nil := by decide
  head_ne := by decide
  last_ne := by decide
  marker := by decide
  signature_eq := by decide
  n_eq := by
    have hfirst : FirstOccurrence clangMarker
        (saverName ++ clangSeparator ++ (saverName ++ literal "]")) 48 := by decide
    have hsig : saverMemory.StringAt ⟨0, 0⟩
        (clangPrefix ++ (saverName ++ clangSeparator ++ (saverName ++ literal "]"))) := by decide
    exact (cttiN_of_first (S := skip .clang ⟨1, 0⟩) rfl hsig (by decide) (by decide) rfl
      clangMarker_ne_nil hfirst).1
  demangled := ⟨_, rfl, by decide⟩

/-- The condition on a type whose own name is decorated. -/
theorem showsAlike_iff_saver :
    ShowsAlike saverToolchain ⟨1, 0⟩ saverType saverName ↔
      (∀ k, ¬ OccursAt clangMarker saverName k) ∧
        (saverType.isQualified = true ∨ ¬ LooksSaved saverName) :=
  showsAlike_iff saver_spelledAlike

/-- The backends show `detail::cvr_saver<int>` differently: one of them as `"int"`. -/
theorem not_showsAlike_saver :
    SpelledAlike saverToolchain ⟨1, 0⟩ ⟨0, 0⟩ saverType saverName ∧
      (StlTypeIndex.typeIdWithCvr saverToolchain saverType).prettyName saverToolchain.typeInfo
        saverToolchain.demangle = some (.ok (literal "int")) ∧
      ¬ ShowsAlike saverToolchain ⟨1, 0⟩ saverType saverName := by
  have hshown := saver_spelledAlike.stl_prettyName
  have hundecorated : undecorated saverName = literal "int" := by decide
  rw [if_neg (by decide), hundecorated] at hshown
  refine ⟨saver_spelledAlike, hshown, fun h => ?_⟩
  have hsame := hshown.symm.trans h.1
  revert hsame
  decide

end TypeIndex
