import TypeIndex.KeySet

/-!
# Unordered containers

An unordered container of the standard keeps each element in the bucket that some function
of its hash code and of the number of buckets selects, and looks for equal elements in that
bucket only. With an equality that compares keys and a hash code that follows it, every run
of commands gives the answers of a set of keys, whatever the buckets and their numbers are.
Where the hash code does not follow the equality some run gives others.
-/

namespace HashedSet

open KeySet

/-- The equality and the hash function of a set. Hashing may fail. -/
structure KeyOps (Key : Type*) where
  /-- Whether two elements are equal. -/
  equal : Key → Key → Bool
  /-- The hash code of an element. -/
  hash : Key → Option ℕ

/-- The choice of the bucket for a hash code. -/
structure Buckets where
  /-- The bucket for a code, given the number of the last bucket. -/
  index : ℕ → ℕ → ℕ
  /-- There are no buckets behind the last one. -/
  index_le : ∀ last code, index last code ≤ last

/-- The bucket that the remainder of a hash code selects. -/
def Buckets.remainder : Buckets where
  index last code := code % (last + 1)
  index_le _ _ := Nat.le_of_lt_succ (Nat.mod_lt _ (Nat.succ_pos _))

/-- What a container knows of its elements, and how it chooses their buckets. -/
structure TableOps (Key : Type*) extends KeyOps Key, Buckets

/-- A container with some choice of buckets. -/
def KeyOps.withBuckets {Key : Type*} (O : KeyOps Key) (B : Buckets) : TableOps Key := ⟨O, B⟩

/-- Elements in buckets. -/
structure Table (Key : Type*) where
  /-- The number of the last bucket. -/
  last : ℕ
  /-- The elements of each bucket. -/
  bucket : ℕ → List Key

namespace Table

variable {Key : Type*} (O : TableOps Key)

/-- Empty buckets. -/
def empty (last : ℕ) : Table Key := ⟨last, fun _ => []⟩

/-- All elements, bucket by bucket. -/
def elements (t : Table Key) : List Key := (List.range (t.last + 1)).flatMap t.bucket

/-- The bucket of an element. -/
def place (t : Table Key) (k : Key) : Option ℕ := (O.hash k).map (O.index t.last)

/-- A table with other elements in one bucket. -/
def setBucket (t : Table Key) (i : ℕ) (bucket : List Key) : Table Key :=
  ⟨t.last, Function.update t.bucket i bucket⟩

/-- A table with one more element in a bucket. -/
def add (t : Table Key) (i : ℕ) (k : Key) : Table Key :=
  t.setBucket i (k :: t.bucket i)

/-- Inserts an element unless there is an equal one; the number of elements inserted. -/
def insert (t : Table Key) (k : Key) : Option (Table Key × ℕ) :=
  (t.place O k).map fun i =>
    if (t.bucket i).any (O.equal k) then (t, 0) else (t.add i k, 1)

/-- Erases the element equal to another one; the number of elements erased. -/
def erase (t : Table Key) (k : Key) : Option (Table Key × ℕ) :=
  (t.place O k).map fun i =>
    if (t.bucket i).any (O.equal k) then (t.setBucket i ((t.bucket i).eraseP (O.equal k)), 1)
    else (t, 0)

/-- The number of elements equal to another one. -/
def count (t : Table Key) (k : Key) : Option ℕ :=
  (t.place O k).map fun i => if (t.bucket i).any (O.equal k) then 1 else 0

/-- Moves all elements to another number of buckets. -/
def rehash (t : Table Key) (last : ℕ) : Option (Table Key) :=
  t.elements.foldlM (fun t' k => (t'.place O k).map fun i => t'.add i k) (empty last)

end Table

namespace Table

variable {Key : Type*} (O : TableOps Key)

/-- What a command does to a table, and its answer. -/
def step (t : Table Key) : Command Key → Option (Table Key × ℕ)
  | .insert k => t.insert O k
  | .erase k => t.erase O k
  | .count k => (t.count O k).map fun n => (t, n)
  | .size => some (t, t.elements.length)
  | .reorganize last => (t.rehash O last).map fun t' => (t', 0)

/-- The answers of a table to the commands of a program. -/
def run (t : Table Key) : List (Command Key) → Option (List ℕ)
  | [] => some []
  | c :: cs => (t.step O c).bind fun (t', n) => (run t' cs).map (n :: ·)

end Table

/-! ## Sets of keys -/

variable {Key α : Type*} {O : TableOps Key} {key : Key → α} {P : Key → Prop}

/-- The equality compares the keys of some elements, and their hash codes follow. -/
structure KeyOps.Follows (O : KeyOps Key) (key : Key → α) (P : Key → Prop) : Prop where
  /-- Elements are equal when their keys are. -/
  equal_iff : ∀ {a b}, P a → P b → (O.equal a b = true ↔ key a = key b)
  /-- Elements with one key have one hash code. -/
  hash_eq : ∀ {a b}, P a → P b → key a = key b →
    ∃ code, O.hash a = some code ∧ O.hash b = some code

/-- A table holds one element for each key of a set, in the bucket of its hash code. -/
structure Table.Represents (O : TableOps Key) (key : Key → α) (P : Key → Prop) (t : Table Key)
    (s : Finset α) : Prop where
  /-- Every element is in its bucket. -/
  placed : ∀ i, ∀ x ∈ t.bucket i, P x ∧ t.place O x = some i
  /-- No bucket has two elements with one key. -/
  nodup : ∀ i, ((t.bucket i).map key).Nodup
  /-- The keys of the elements are those of the set. -/
  mem_iff : ∀ a, a ∈ s ↔ ∃ i, ∃ x ∈ t.bucket i, key x = a

namespace Table

variable {t : Table Key} {s : Finset α} {k : Key} {i : ℕ}

/-- Empty buckets hold the empty set. -/
theorem represents_empty (last : ℕ) : (empty last : Table Key).Represents O key P (∅ : Finset α) :=
  ⟨fun _ _ h => (List.not_mem_nil h).elim, fun _ => List.nodup_nil, fun a => by simp [empty]⟩

/-- The bucket that is set changes, the others stay. -/
theorem setBucket_bucket (t : Table Key) (i j : ℕ) (bucket : List Key) :
    (t.setBucket i bucket).bucket j = if j = i then bucket else t.bucket j := by
  unfold setBucket
  exact Function.update_apply t.bucket i bucket j

/-- Elements with one key have one bucket. -/
theorem exists_place (hO : O.toKeyOps.Follows key P) (t : Table Key) (hk : P k) :
    ∃ i, t.place O k = some i ∧ ∀ x, P x → key x = key k → t.place O x = some i := by
  obtain ⟨code, hcode, -⟩ := hO.hash_eq hk hk rfl
  refine ⟨O.index t.last code, by rw [place, hcode]; rfl, fun x hx hkey => ?_⟩
  obtain ⟨code', hcode', hsame⟩ := hO.hash_eq hk hx hkey.symm
  rw [hcode, Option.some.injEq] at hcode'
  rw [place, hsame, ← hcode']
  rfl

/-- The bucket of an element has an equal one exactly when the set has its key. -/
theorem Represents.any_iff (hO : O.toKeyOps.Follows key P) (h : t.Represents O key P s) (hk : P k)
    (hi : t.place O k = some i) : (t.bucket i).any (O.equal k) = true ↔ key k ∈ s := by
  rw [List.any_eq_true, h.mem_iff]
  constructor
  · rintro ⟨x, hx, hequal⟩
    exact ⟨i, x, hx, ((hO.equal_iff hk (h.placed i x hx).1).mp hequal).symm⟩
  · rintro ⟨j, x, hx, hkey⟩
    obtain ⟨hPx, hj⟩ := h.placed j x hx
    obtain ⟨i', hi', hsame⟩ := exists_place hO t hk
    rw [hi, Option.some.injEq] at hi'
    rw [hsame x hPx hkey, Option.some.injEq, ← hi'] at hj
    rw [← hj] at hx
    exact ⟨x, hx, (hO.equal_iff hk hPx).mpr hkey.symm⟩

/-- Elements in different buckets have different keys. -/
theorem Represents.bucket_eq (hO : O.toKeyOps.Follows key P) (h : t.Represents O key P s)
    {i j : ℕ} {x y : Key} (hx : x ∈ t.bucket i) (hy : y ∈ t.bucket j)
    (hkey : key x = key y) : i = j := by
  obtain ⟨hPx, hi⟩ := h.placed i x hx
  obtain ⟨hPy, hj⟩ := h.placed j y hy
  obtain ⟨i', hi', hsame⟩ := exists_place hO t hPy
  rw [hsame x hPx hkey, Option.some.injEq] at hi
  rw [hi', Option.some.injEq] at hj
  exact hi.symm.trans hj

/-- The elements have different keys. -/
theorem Represents.elements_nodup (hO : O.toKeyOps.Follows key P) (h : t.Represents O key P s) :
    (t.elements.map key).Nodup := by
  rw [elements, List.map_flatMap, List.nodup_flatMap]
  refine ⟨fun i _ => h.nodup i, (List.nodup_range).imp fun hne => ?_⟩
  intro a ha hb
  obtain ⟨x, hx, hxa⟩ := List.mem_map.mp ha
  obtain ⟨y, hy, hya⟩ := List.mem_map.mp hb
  exact hne (h.bucket_eq hO hx hy (hxa.trans hya.symm))

/-- The elements are those of all buckets. -/
theorem Represents.mem_elements (h : t.Represents O key P s) {x : Key} :
    x ∈ t.elements ↔ ∃ i, x ∈ t.bucket i := by
  rw [elements, List.mem_flatMap]
  constructor
  · rintro ⟨i, -, hx⟩
    exact ⟨i, hx⟩
  · rintro ⟨i, hx⟩
    obtain ⟨code, -, hi⟩ := Option.map_eq_some_iff.mp (h.placed i x hx).2
    refine ⟨i, List.mem_range.mpr ?_, hx⟩
    rw [← hi]
    exact Nat.lt_succ_of_le (O.index_le _ _)

/-- Erasing the first equal element erases the only one. -/
theorem mem_eraseP_equal (hO : O.toKeyOps.Follows key P) (hk : P k) {bucket : List Key}
    (hP : ∀ x ∈ bucket, P x) (hnodup : (bucket.map key).Nodup) {x : Key} :
    x ∈ bucket.eraseP (O.equal k) ↔ x ∈ bucket ∧ key x ≠ key k := by
  induction bucket with
  | nil => simp
  | cons y bucket ih =>
    rw [List.map_cons, List.nodup_cons] at hnodup
    have hy := hO.equal_iff hk (hP y List.mem_cons_self)
    have hrest := ih (fun x hx => hP x (List.mem_cons_of_mem _ hx)) hnodup.2
    by_cases hequal : O.equal k y = true
    · rw [List.eraseP_cons_of_pos hequal, List.mem_cons]
      have hkey := hy.mp hequal
      constructor
      · intro hx
        refine ⟨Or.inr hx, fun hsame => hnodup.1 ?_⟩
        rw [← hkey, ← hsame]
        exact List.mem_map_of_mem hx
      · rintro ⟨rfl | hx, hne⟩
        · exact absurd hkey.symm hne
        · exact hx
    · rw [List.eraseP_cons_of_neg hequal, List.mem_cons, List.mem_cons, hrest]
      constructor
      · rintro (rfl | ⟨hx, hne⟩)
        · exact ⟨Or.inl rfl, fun hsame => hequal (hy.mpr hsame.symm)⟩
        · exact ⟨Or.inr hx, hne⟩
      · rintro ⟨rfl | hx, hne⟩
        · exact Or.inl rfl
        · exact Or.inr ⟨hx, hne⟩

variable [DecidableEq α]

/-- The keys of the elements make up the set. -/
theorem Represents.toFinset_elements (h : t.Represents O key P s) :
    (t.elements.map key).toFinset = s := by
  ext a
  rw [List.mem_toFinset, List.mem_map, h.mem_iff]
  constructor
  · rintro ⟨x, hx, hkey⟩
    obtain ⟨i, hi⟩ := h.mem_elements.mp hx
    exact ⟨i, x, hi, hkey⟩
  · rintro ⟨i, x, hi, hkey⟩
    exact ⟨x, h.mem_elements.mpr ⟨i, hi⟩, hkey⟩

/-- A table has as many elements as the set has keys. -/
theorem Represents.length_elements (hO : O.toKeyOps.Follows key P) (h : t.Represents O key P s) :
    t.elements.length = s.card := by
  rw [← h.toFinset_elements, List.toFinset_card_of_nodup (h.elements_nodup hO), List.length_map]

/-! ## The operations -/

/-- A new element in its bucket adds its key. -/
theorem Represents.add (h : t.Represents O key P s) (hk : P k) (hi : t.place O k = some i)
    (hnew : key k ∉ s) : (t.add i k).Represents O key P (Insert.insert (key k) s) := by
  have hbucket : ∀ j, (t.add i k).bucket j = if j = i then k :: t.bucket i else t.bucket j :=
    fun j => setBucket_bucket t i j _
  refine ⟨fun j x hx => ?_, fun j => ?_, fun a => ?_⟩
  · change P x ∧ t.place O x = some j
    rw [hbucket] at hx
    split_ifs at hx with hji
    · subst hji
      rcases List.mem_cons.mp hx with rfl | hx
      · exact ⟨hk, hi⟩
      · exact h.placed j x hx
    · exact h.placed j x hx
  · rw [hbucket]
    split_ifs with hji
    · rw [List.map_cons, List.nodup_cons]
      refine ⟨fun hmem => ?_, h.nodup i⟩
      obtain ⟨x, hx, hkey⟩ := List.mem_map.mp hmem
      exact hnew ((h.mem_iff _).mpr ⟨i, x, hx, hkey⟩)
    · exact h.nodup j
  · rw [Finset.mem_insert, h.mem_iff]
    constructor
    · rintro (rfl | ⟨j, x, hx, hkey⟩)
      · exact ⟨i, k, by rw [hbucket, if_pos rfl]; exact List.mem_cons_self, rfl⟩
      · refine ⟨j, x, ?_, hkey⟩
        rw [hbucket]
        split_ifs with hji
        · subst hji
          exact List.mem_cons_of_mem _ hx
        · exact hx
    · rintro ⟨j, x, hx, hkey⟩
      rw [hbucket] at hx
      split_ifs at hx with hji
      · rcases List.mem_cons.mp hx with rfl | hx
        · exact Or.inl hkey.symm
        · exact Or.inr ⟨i, x, hx, hkey⟩
      · exact Or.inr ⟨j, x, hx, hkey⟩

/-- Erasing an element from its bucket erases its key. -/
theorem Represents.eraseP (hO : O.toKeyOps.Follows key P) (h : t.Represents O key P s) (hk : P k)
    (hi : t.place O k = some i) :
    (t.setBucket i ((t.bucket i).eraseP (O.equal k))).Represents O key P (s.erase (key k)) := by
  have hmem : ∀ j x, x ∈ (t.setBucket i ((t.bucket i).eraseP (O.equal k))).bucket j ↔
      x ∈ t.bucket j ∧ key x ≠ key k := by
    intro j x
    rw [setBucket_bucket]
    split_ifs with hji
    · subst hji
      exact mem_eraseP_equal hO hk (fun y hy => (h.placed j y hy).1) (h.nodup j)
    · refine ⟨fun hx => ⟨hx, fun hkey => hji ?_⟩, And.left⟩
      obtain ⟨hPx, hj⟩ := h.placed j x hx
      obtain ⟨i', hi', hsame⟩ := exists_place hO t hk
      rw [hi, Option.some.injEq] at hi'
      rw [hsame x hPx hkey, Option.some.injEq] at hj
      exact hj.symm.trans hi'.symm
  refine ⟨fun j x hx => h.placed j x ((hmem j x).mp hx).1, fun j => ?_, fun a => ?_⟩
  · rw [setBucket_bucket]
    split_ifs
    · exact (h.nodup i).sublist (List.eraseP_sublist.map key)
    · exact h.nodup j
  · rw [Finset.mem_erase, h.mem_iff]
    constructor
    · rintro ⟨hne, j, x, hx, rfl⟩
      exact ⟨j, x, (hmem j x).mpr ⟨hx, hne⟩, rfl⟩
    · rintro ⟨j, x, hx, rfl⟩
      obtain ⟨hx, hne⟩ := (hmem j x).mp hx
      exact ⟨hne, j, x, hx, rfl⟩

/-- Moving elements with new and different keys into a table adds their keys. -/
theorem Represents.foldlM_add (hO : O.toKeyOps.Follows key P) {l : List Key}
    (h : t.Represents O key P s) (hP : ∀ x ∈ l, P x) (hnodup : (l.map key).Nodup)
    (hnew : ∀ x ∈ l, key x ∉ s) :
    ∃ t', l.foldlM (fun t' k => (t'.place O k).map fun i => t'.add i k) t = some t' ∧
      t'.Represents O key P (s ∪ (l.map key).toFinset) := by
  induction l generalizing t s with
  | nil => exact ⟨t, rfl, by simpa using h⟩
  | cons x l ih =>
    rw [List.map_cons, List.nodup_cons] at hnodup
    have hx := hP x List.mem_cons_self
    obtain ⟨i, hi, -⟩ := exists_place hO t hx
    have hadd := h.add hx hi (hnew x List.mem_cons_self)
    obtain ⟨t', ht', hrep⟩ := ih hadd (fun y hy => hP y (List.mem_cons_of_mem _ hy)) hnodup.2
      fun y hy hmem => by
        rcases Finset.mem_insert.mp hmem with hkey | hmem
        · exact hnodup.1 (hkey ▸ List.mem_map_of_mem hy)
        · exact hnew y (List.mem_cons_of_mem _ hy) hmem
    refine ⟨t', ?_, ?_⟩
    · rw [List.foldlM_cons, hi]
      exact ht'
    · rw [List.map_cons, List.toFinset_cons, Finset.union_insert, ← Finset.insert_union]
      exact hrep

/-- Rehashing keeps the set. -/
theorem Represents.rehash (hO : O.toKeyOps.Follows key P) (h : t.Represents O key P s) (last : ℕ) :
    ∃ t', t.rehash O last = some t' ∧ t'.Represents O key P s := by
  have hP : ∀ x ∈ t.elements, P x := by
    intro x hx
    obtain ⟨i, hi⟩ := h.mem_elements.mp hx
    exact (h.placed i x hi).1
  obtain ⟨t', ht', hrep⟩ := (represents_empty last).foldlM_add hO hP (h.elements_nodup hO)
    fun x _ => Finset.notMem_empty (key x)
  rw [Finset.empty_union, h.toFinset_elements] at hrep
  exact ⟨t', ht', hrep⟩

/-! ## Runs -/

/-- A command has the same effect and the same answer on a table and on the set. -/
theorem Represents.step (hO : O.toKeyOps.Follows key P) (h : t.Represents O key P s) {c : Command Key}
    (hc : ∀ k ∈ c.keys, P k) :
    ∃ t', t.step O c = some (t', ((c.map key).apply s).2) ∧
      t'.Represents O key P ((c.map key).apply s).1 := by
  cases c with
  | insert k =>
    have hk := hc k (List.mem_singleton_self k)
    obtain ⟨i, hi, -⟩ := exists_place hO t hk
    have hany := h.any_iff hO hk hi
    rw [Table.step, Table.insert, hi, Option.map_some, Command.map, Command.apply]
    by_cases hmem : key k ∈ s
    · rw [if_pos (hany.mpr hmem), if_pos hmem, Finset.insert_eq_of_mem hmem]
      exact ⟨t, rfl, h⟩
    · rw [if_neg (mt hany.mp hmem), if_neg hmem]
      exact ⟨t.add i k, rfl, h.add hk hi hmem⟩
  | erase k =>
    have hk := hc k (List.mem_singleton_self k)
    obtain ⟨i, hi, -⟩ := exists_place hO t hk
    have hany := h.any_iff hO hk hi
    rw [Table.step, Table.erase, hi, Option.map_some, Command.map, Command.apply]
    by_cases hmem : key k ∈ s
    · rw [if_pos (hany.mpr hmem), if_pos hmem]
      exact ⟨_, rfl, h.eraseP hO hk hi⟩
    · rw [if_neg (mt hany.mp hmem), if_neg hmem, Finset.erase_eq_of_notMem hmem]
      exact ⟨t, rfl, h⟩
  | count k =>
    have hk := hc k (List.mem_singleton_self k)
    obtain ⟨i, hi, -⟩ := exists_place hO t hk
    refine ⟨t, ?_, h⟩
    simp only [Table.step, Table.count, hi, Option.map_some, h.any_iff hO hk hi, Command.map,
      Command.apply]
  | size =>
    refine ⟨t, ?_, h⟩
    rw [Table.step, h.length_elements hO]
    rfl
  | reorganize last =>
    obtain ⟨t', ht', hrep⟩ := h.rehash hO last
    refine ⟨t', ?_, hrep⟩
    rw [Table.step, ht']
    rfl

/-- Every run of a table gives the answers of the set that it represents. -/
theorem Represents.run (hO : O.toKeyOps.Follows key P) (h : t.Represents O key P s)
    {cs : List (Command Key)} (hcs : ∀ c ∈ cs, ∀ k ∈ c.keys, P k) :
    t.run O cs = some (answers s (cs.map (·.map key))) := by
  induction cs generalizing t s with
  | nil => rfl
  | cons c cs ih =>
    obtain ⟨t', hstep, hrep⟩ := h.step hO (hcs c List.mem_cons_self)
    have hrun := ih hrep fun c' hc' => hcs c' (List.mem_cons_of_mem _ hc')
    rw [Table.run, hstep, Option.bind_some]
    change (t'.run O cs).map _ = _
    rw [hrun]
    rfl

/-- Runs give the answers of a set of keys, with every choice of buckets and from every number
of them, exactly when elements with one key have one hash code. -/
theorem run_eq_answers_iff (O : KeyOps Key) (key : Key → α) (P : Key → Prop)
    (hequal : ∀ a b, P a → P b → (O.equal a b = true ↔ key a = key b))
    (hhash : ∀ a, P a → ∃ code, O.hash a = some code) :
    (∀ (B : Buckets) (last : ℕ) (cs : List (Command Key)), (∀ c ∈ cs, ∀ k ∈ c.keys, P k) →
      (empty last).run (O.withBuckets B) cs = some (answers ∅ (cs.map (·.map key)))) ↔
    ∀ a b, P a → P b → key a = key b → O.hash a = O.hash b := by
  constructor
  · intro h a b ha hb hkey
    obtain ⟨code, hcode⟩ := hhash a ha
    obtain ⟨code', hcode'⟩ := hhash b hb
    by_contra hne
    have hcodes : code' ≠ code := by
      rintro rfl
      exact hne (hcode.trans hcode'.symm)
    have hcommands : ∀ c ∈ [Command.insert a, .count b], ∀ k ∈ c.keys, P k := by
      intro c hc k hk
      rcases List.mem_pair.mp hc with rfl | rfl
      · rwa [List.mem_singleton.mp hk]
      · rwa [List.mem_singleton.mp hk]
    -- With more buckets than both codes the remainders differ.
    have hrun := h .remainder (code + code') _ hcommands
    have hplace : code % (code + code' + 1) = code := Nat.mod_eq_of_lt (by omega)
    have hplace' : code' % (code + code' + 1) = code' := Nat.mod_eq_of_lt (by omega)
    simp [run, step, insert, count, place, empty, add, setBucket, answers, Command.map,
      Command.apply, KeyOps.withBuckets, Buckets.remainder, hcode, hcode', hplace, hplace',
      hcodes, hkey] at hrun
  · intro h B last cs hcs
    have hO : O.Follows key P := by
      refine ⟨fun ha hb => hequal _ _ ha hb, fun {a b} ha hb hkey => ?_⟩
      obtain ⟨code, hcode⟩ := hhash a ha
      exact ⟨code, hcode, (h a b ha hb hkey).symm.trans hcode⟩
    exact (represents_empty (O := O.withBuckets B) last).run hO hcs

end Table

end HashedSet
