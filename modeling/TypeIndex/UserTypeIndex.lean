import TypeIndex.Registry

/-!
# An index of one's own

A program may bring its own class of indices. The one of the documentation numbers the few
types of a program, keeps a table of their names and inherits the comparisons and the hash
code from the facade. Its indices tell types apart as far as the names in the table do.
-/

namespace TypeIndex

open CMemory HashedSet KeySet

/-- A `my_typeinfo`, which holds the name of a type. -/
structure MyTypeinfo (m : CharMemory) where
  /-- The name. -/
  type : CStr m

/-- The table `infos` and the metafunction `typenum`, which has a value for some types. -/
structure TypeTable (α : Type*) (m : CharMemory) where
  /-- The names of the types. -/
  infos : List (MyTypeinfo m)
  /-- The place of a type in the table. -/
  typenum : α → Fin infos.length

/-- A `my_type_index`. -/
structure MyTypeIndex (m : CharMemory) where
  /-- The entry of the table. -/
  data : MyTypeinfo m

namespace MyTypeIndex

variable {α : Type*} {m : CharMemory}

/-- The converting constructor from a `my_typeinfo`. -/
def ofTypeInfo (data : MyTypeinfo m) : MyTypeIndex m := ⟨data⟩

/-- The member `raw_name`. -/
def rawName (self : MyTypeIndex m) : CStr m := self.data.type

/-- `my_typeinfo_construct`. -/
def myTypeinfoConstruct (table : TypeTable α m) (T : α) : MyTypeinfo m :=
  table.infos.get (table.typenum T)

/-- The member `type_id`. -/
def typeId (table : TypeTable α m) (T : α) : MyTypeIndex m :=
  ofTypeInfo (myTypeinfoConstruct table T)

/-- What `my_type_index` offers to its facade. -/
def facade (strcmp : Strcmp) (hash : List UInt8 → ℕ) :
    TypeIndexFacade m (MyTypeIndex m) (MyTypeinfo m) :=
  .inheriting strcmp hash rawName ofTypeInfo

/-- The index follows its raw name. -/
theorem keyOps_follows (strcmp : Strcmp) (hash : List UInt8 → ℕ) :
    (facade strcmp hash : TypeIndexFacade m _ _).keyOps.Follows (fun d => d.rawName.chars)
      (fun _ => True) where
  equal_iff {a b} _ _ := TypeIndexFacade.inheritedEqual_iff strcmp rawName a b
  hash_eq {a b} _ _ hchars := by
    refine ⟨_, TypeIndexFacade.inheritedHashCode_eq hash rawName a, ?_⟩
    rw [hchars]
    exact TypeIndexFacade.inheritedHashCode_eq hash rawName b

/-- A registry of such indices is a set of the names in the table. -/
theorem registry_eq_names (table : TypeTable α m) (strcmp : Strcmp) (hash : List UInt8 → ℕ)
    (B : Buckets) (last : ℕ) (cs : List (Command α)) :
    (Table.empty last).run ((facade strcmp hash).keyOps.withBuckets B)
        (cs.map (·.map (typeId table))) =
      some (answers ∅ (cs.map (·.map fun T => (typeId table T).rawName.chars))) := by
  have hkeys : ∀ c ∈ cs.map (·.map (typeId table)), ∀ k ∈ c.keys, True := fun _ _ _ _ => trivial
  have hrun := (Table.represents_empty (O := (facade strcmp hash).keyOps.withBuckets B) last).run
    (keyOps_follows strcmp hash) hkeys
  rw [hrun, Command.map_map]

end MyTypeIndex

/-- A registry of user-defined indices gives the answers of a set of types, through every
run with any numbers of buckets, exactly when the table names different types differently,
whatever the choice of buckets is. -/
theorem userRegistry_answers_iff {α : Type*} [DecidableEq α] {m : CharMemory}
    (table : TypeTable α m) (strcmp : Strcmp) (hash : List UInt8 → ℕ) (B : Buckets) :
    (∀ (last : ℕ) (cs : List (Command α)),
      (Table.empty last).run ((MyTypeIndex.facade strcmp hash).keyOps.withBuckets B)
        (cs.map (·.map (MyTypeIndex.typeId table))) = some (answers ∅ cs)) ↔
    Function.Injective fun T => (MyTypeIndex.typeId table T).rawName.chars := by
  simp only [MyTypeIndex.registry_eq_names, Option.some.injEq]
  constructor
  · intro h a b hnames
    have hanswers := h 0 [.insert a, .count b]
    by_contra hne
    simp only [List.map_cons, List.map_nil, Command.map, answers, Command.apply] at hanswers
    simp [hnames, Ne.symm hne] at hanswers
  · intro hinjective _ cs
    rw [← answers_map ⟨_, hinjective⟩ ∅ cs, Finset.map_empty]
    rfl

/-! ### The table of the documentation -/

/-- The types of the program. -/
inductive MyType
  | void
  | myClass
  | myStruct
  | myClasses
  | myString
  deriving DecidableEq, Repr

/-- The names, each in a block of its own. -/
def myMemory : CharMemory
  | 0 => literal "void" ++ [0]
  | 1 => literal "my_class" ++ [0]
  | 2 => literal "my_struct" ++ [0]
  | 3 => literal "my_classes" ++ [0]
  | _ => literal "my_string" ++ [0]

/-- The array `infos`. -/
def myInfos : List (MyTypeinfo myMemory) :=
  [⟨⟨⟨0, 0⟩, by decide⟩⟩, ⟨⟨⟨1, 0⟩, by decide⟩⟩, ⟨⟨⟨2, 0⟩, by decide⟩⟩, ⟨⟨⟨3, 0⟩, by decide⟩⟩,
    ⟨⟨⟨4, 0⟩, by decide⟩⟩]

/-- The table of these names. -/
def myTable : TypeTable MyType myMemory where
  infos := myInfos
  typenum
    | .void => ⟨0, by decide⟩
    | .myClass => ⟨1, by decide⟩
    | .myStruct => ⟨2, by decide⟩
    | .myClasses => ⟨3, by decide⟩
    | .myString => ⟨4, by decide⟩

/-- The names in the table differ. -/
theorem myTable_injective :
    Function.Injective fun T => (MyTypeIndex.typeId myTable T).rawName.chars := by
  intro T U
  cases T <;> cases U <;> decide

/-- The documented indices make registries of the documented types. -/
theorem userRegistry_answers_iff_myTable :
    ∀ (last : ℕ) (cs : List (Command MyType)),
      (Table.empty last).run ((MyTypeIndex.facade default List.length).keyOps.withBuckets .remainder)
        (cs.map (·.map (MyTypeIndex.typeId myTable))) = some (answers ∅ cs) :=
  (userRegistry_answers_iff myTable default List.length .remainder).mpr myTable_injective

end TypeIndex
