import Mathlib.Data.List.Nodup
import Mathlib.Logic.Relation
import Mathlib.Tactic.Common

/-!
# Class hierarchies and base class subobjects

A hierarchy lists the direct bases of every class and tells which of them are
virtual. A subobject is named by its class and the chain of objects around it, up to
the complete object or to a virtual base, which the complete object contains only
once. One base step leads from a subobject to each of its direct base subobjects.
-/

namespace CxxObject

/-- The class definitions of a program in which all inheritance is public. -/
structure Hierarchy (Class : Type*) where
  /-- The direct bases of a class, in the order of their declaration. -/
  bases : Class → List Class
  /-- Whether a class inherits from a direct base virtually. -/
  isVirtual : Class → Class → Bool
  /-- No class is a direct base twice. -/
  nodup : ∀ c, (bases c).Nodup
  /-- The position of a class in the order of the definitions. -/
  declared : Class → ℕ
  /-- The definition of a class follows those of its bases. -/
  declared_lt : ∀ {b c}, b ∈ bases c → declared b < declared c

/-- A subobject of a complete object. -/
@[ext]
structure Subobject (Class : Type*) where
  /-- The class of the subobject. -/
  cls : Class
  /-- The classes of the objects around it, from the inside, up to and including
  the complete object or the nearest virtual base. -/
  enclosing : List Class
  deriving DecidableEq, Repr

/-- A complete object as a subobject of itself. -/
def Subobject.complete {Class : Type*} (c : Class) : Subobject Class := ⟨c, []⟩

/-- A complete object has the class it was created with. -/
@[simp] theorem Subobject.complete_cls {Class : Type*} (c : Class) :
    (Subobject.complete c).cls = c := rfl

/-- The class of the outermost object of the chain. -/
def Subobject.outermost {Class : Type*} (s : Subobject Class) : Class :=
  s.enclosing.getLastD s.cls

/-- The outermost class is that of the chain around the first object. -/
theorem Subobject.outermost_cons {Class : Type*} (b c : Class) (enclosing : List Class) :
    (⟨b, c :: enclosing⟩ : Subobject Class).outermost = Subobject.outermost ⟨c, enclosing⟩ :=
  List.getLastD_cons

/-- The outermost class is that of the subobject or of one around it. -/
theorem Subobject.outermost_mem {Class : Type*} (s : Subobject Class) :
    s.outermost ∈ s.cls :: s.enclosing :=
  List.getLastD_mem_cons

/-- The place of a subobject of a complete object when that object is a subobject
itself. What is nested in the object moves with it; virtual bases do not. -/
def Subobject.place {Class : Type*} [DecidableEq Class] (u s : Subobject Class) :
    Subobject Class :=
  if s.outermost = u.cls then ⟨s.cls, s.enclosing ++ u.enclosing⟩ else s

/-- Placing a subobject keeps its class. -/
@[simp] theorem Subobject.place_cls {Class : Type*} [DecidableEq Class] (u s : Subobject Class) :
    (u.place s).cls = s.cls := by
  unfold Subobject.place
  split <;> rfl

namespace Hierarchy

variable {Class : Type*} (H : Hierarchy Class)

/-- A class is another one or a direct or indirect base of it, as `std::is_base_of`
has it. -/
def IsBaseOf (b c : Class) : Prop := Relation.ReflTransGen (fun c b => b ∈ H.bases c) c b

/-- The subobject for a direct base. A virtual base is not nested in the object. -/
def base (s : Subobject Class) (b : Class) : Subobject Class :=
  if H.isVirtual s.cls b then ⟨b, []⟩ else ⟨b, s.cls :: s.enclosing⟩

/-- A base subobject has the class of the base. -/
@[simp] theorem base_cls (s : Subobject Class) (b : Class) : (H.base s b).cls = b := by
  unfold base
  split <;> rfl

/-- One subobject is a direct base subobject of another. -/
def BaseStep (s t : Subobject Class) : Prop := ∃ b ∈ H.bases s.cls, t = H.base s b

/-- A subobject is another one or one of its base class subobjects. -/
def Contains (s t : Subobject Class) : Prop := Relation.ReflTransGen H.BaseStep s t

/-- A class is an unambiguous base of another one: a complete object of the derived
class has exactly one subobject of the base class. -/
def UnambiguousBase (b c : Class) : Prop :=
  ∃! t, H.Contains (.complete c) t ∧ t.cls = b

variable {H} {b c : Class} {s t u : Subobject Class}

/-! ## Bases of classes -/

/-- Every class is a base of itself. -/
theorem IsBaseOf.refl (c : Class) : H.IsBaseOf c c := Relation.ReflTransGen.refl

/-- A base of a class is the class or a base of one of its direct bases. -/
theorem isBaseOf_iff : H.IsBaseOf b c ↔ c = b ∨ ∃ d ∈ H.bases c, H.IsBaseOf b d := by
  unfold IsBaseOf
  rw [Relation.ReflTransGen.cases_head_iff]

/-- A base is defined no later than the class. -/
theorem IsBaseOf.declared_le (h : H.IsBaseOf b c) : H.declared b ≤ H.declared c := by
  induction h with
  | refl => exact Nat.le_refl _
  | tail _ hstep ih =>
    have hlt := H.declared_lt hstep
    omega

/-- A class is no base of its own bases. -/
theorem not_isBaseOf_of_mem (h : b ∈ H.bases c) : ¬ H.IsBaseOf c b := by
  intro hc
  have hle := hc.declared_le
  have hlt := H.declared_lt h
  omega

/-! ## Containment of subobjects -/

/-- Every subobject contains itself. -/
theorem Contains.refl (s : Subobject Class) : H.Contains s s := Relation.ReflTransGen.refl

/-- Containment is transitive. -/
theorem Contains.trans (hst : H.Contains s t) (htu : H.Contains t u) : H.Contains s u :=
  Relation.ReflTransGen.trans hst htu

/-- An object contains its direct base subobjects. -/
theorem contains_base (h : b ∈ H.bases s.cls) : H.Contains s (H.base s b) :=
  Relation.ReflTransGen.single ⟨b, h, rfl⟩

/-- An object contains itself and what its direct base subobjects contain. -/
theorem contains_iff :
    H.Contains s t ↔ s = t ∨ ∃ b ∈ H.bases s.cls, H.Contains (H.base s b) t := by
  unfold Contains
  rw [Relation.ReflTransGen.cases_head_iff]
  constructor
  · rintro (hst | ⟨_, ⟨b, hb, rfl⟩, ht⟩)
    · exact Or.inl hst
    · exact Or.inr ⟨b, hb, ht⟩
  · rintro (hst | ⟨b, hb, ht⟩)
    · exact Or.inl hst
    · exact Or.inr ⟨_, ⟨b, hb, rfl⟩, ht⟩

/-- The classes of contained subobjects are bases of the class. -/
theorem Contains.isBaseOf (h : H.Contains s t) : H.IsBaseOf t.cls s.cls := by
  induction h with
  | refl => exact IsBaseOf.refl _
  | tail _ hstep ih =>
    obtain ⟨b, hb, rfl⟩ := hstep
    rw [base_cls]
    exact Relation.ReflTransGen.tail ih hb

/-- An object contains a subobject of every base of its class. -/
theorem IsBaseOf.exists_contains (h : H.IsBaseOf b s.cls) : ∃ t, H.Contains s t ∧ t.cls = b := by
  induction h with
  | refl => exact ⟨s, Contains.refl s, rfl⟩
  | @tail d b _ hb ih =>
    obtain ⟨t, ht, rfl⟩ := ih
    exact ⟨H.base t b, ht.trans (contains_base hb), base_cls H t b⟩

/-- An object is the only subobject of its class in itself. -/
theorem Contains.eq_of_cls_eq (h : H.Contains s t) (hcls : t.cls = s.cls) : t = s := by
  rcases contains_iff.mp h with rfl | ⟨b, hb, ht⟩
  · rfl
  · have hbase := ht.isBaseOf
    rw [base_cls, hcls] at hbase
    exact absurd hbase (not_isBaseOf_of_mem hb)

/-- Every class is an unambiguous base of itself. -/
theorem unambiguousBase_self (c : Class) : H.UnambiguousBase c c :=
  ⟨.complete c, ⟨Contains.refl _, rfl⟩, fun _ ht => ht.1.eq_of_cls_eq ht.2⟩

/-- An unambiguous base is a base. -/
theorem UnambiguousBase.isBaseOf (h : H.UnambiguousBase b c) : H.IsBaseOf b c := by
  obtain ⟨t, ⟨ht, rfl⟩, -⟩ := h
  exact ht.isBaseOf

/-- An object and its base class subobjects, one entry for every way to reach them. -/
def subobjects (H : Hierarchy Class) (s : Subobject Class) : List (Subobject Class) :=
  s :: (H.bases s.cls).attach.flatMap fun b => H.subobjects (H.base s b.1)
termination_by H.declared s.cls
decreasing_by
  rw [base_cls]
  exact H.declared_lt b.2

/-- The list has exactly the subobjects contained. -/
theorem mem_subobjects : t ∈ H.subobjects s ↔ H.Contains s t := by
  induction hdepth : H.declared s.cls using Nat.strongRecOn generalizing s with
  | ind depth ih =>
    have hrec : ∀ b ∈ H.bases s.cls, t ∈ H.subobjects (H.base s b) ↔ H.Contains (H.base s b) t := by
      intro b hb
      refine ih _ ?_ rfl
      rw [base_cls, ← hdepth]
      exact H.declared_lt hb
    rw [subobjects, contains_iff, List.mem_cons, List.mem_flatMap, eq_comm]
    refine or_congr_right ?_
    constructor
    · rintro ⟨b, -, hb⟩
      exact ⟨b.1, b.2, (hrec b.1 b.2).mp hb⟩
    · rintro ⟨b, hmem, hb⟩
      exact ⟨⟨b, hmem⟩, List.mem_attach _ _, (hrec b hmem).mpr hb⟩

/-! ## Subobjects of a complete object inside a larger object -/

/-- A subobject of a complete object of a class is nested in that object, or all
classes of its chain are defined earlier. -/
theorem Contains.outermost_eq_or (h : H.Contains (.complete c) s) :
    s.outermost = c ∨ ∀ d ∈ s.cls :: s.enclosing, H.declared d < H.declared c := by
  induction h with
  | refl => exact Or.inl rfl
  | tail hs hstep ih =>
    rename_i s t
    obtain ⟨b, hb, rfl⟩ := hstep
    have hlt := H.declared_lt hb
    have hle := (Contains.isBaseOf hs).declared_le
    rw [Subobject.complete_cls] at hle
    unfold base
    split
    · refine Or.inr fun d hd => ?_
      rw [List.mem_singleton.mp hd]
      change H.declared b < H.declared c
      omega
    · rcases ih with hout | hall
      · exact Or.inl ((Subobject.outermost_cons _ _ _).trans hout)
      · refine Or.inr fun d hd => ?_
        rcases List.mem_cons.mp hd with rfl | hd
        · have hs := hall s.cls List.mem_cons_self
          omega
        · exact hall d hd

variable [DecidableEq Class]

/-- Placing commutes with base steps. -/
theorem place_base (hs : H.Contains (.complete u.cls) s) (hb : b ∈ H.bases s.cls) :
    u.place (H.base s b) = H.base (u.place s) b := by
  have hlt := H.declared_lt hb
  have hle := hs.isBaseOf.declared_le
  rw [Subobject.complete_cls] at hle
  have hne : b ≠ u.cls := by
    rintro rfl
    omega
  unfold base
  rw [Subobject.place_cls]
  split
  · exact if_neg hne
  · unfold Subobject.place
    rw [Subobject.outermost_cons]
    split <;> rfl

/-- Placing leads from the subobjects of a complete object to those of its place. -/
theorem Contains.place (h : H.Contains (.complete u.cls) s) : H.Contains u (u.place s) := by
  induction h with
  | refl =>
    have hplace : u.place (.complete u.cls) = u := if_pos rfl
    rw [hplace]
    exact Contains.refl u
  | tail hs hstep ih =>
    obtain ⟨b, hb, rfl⟩ := hstep
    rw [place_base hs hb]
    refine ih.trans (contains_base ?_)
    rwa [Subobject.place_cls]

/-- Every subobject of a subobject is the place of one of a complete object. -/
theorem Contains.exists_place (h : H.Contains u t) :
    ∃ s, H.Contains (.complete u.cls) s ∧ u.place s = t := by
  induction h with
  | refl => exact ⟨.complete u.cls, Contains.refl _, if_pos rfl⟩
  | tail _ hstep ih =>
    obtain ⟨b, hb, rfl⟩ := hstep
    obtain ⟨s, hs, rfl⟩ := ih
    rw [Subobject.place_cls] at hb
    exact ⟨H.base s b, hs.trans (contains_base hb), place_base hs hb⟩

/-- Different subobjects of a complete object have different places. -/
theorem place_injective (hs : H.Contains (.complete u.cls) s)
    (ht : H.Contains (.complete u.cls) t) (h : u.place s = u.place t) : s = t := by
  have hmixed : ∀ s t : Subobject Class, H.Contains (.complete u.cls) t →
      s.outermost = u.cls → t.outermost ≠ u.cls → u.place s ≠ u.place t := by
    intro s t ht hsout htout hplace
    have hall := ht.outermost_eq_or.resolve_left htout
    unfold Subobject.place at hplace
    rw [if_pos hsout, if_neg htout] at hplace
    have hmem : u.cls ∈ t.cls :: t.enclosing := by
      rw [← hplace, ← hsout, ← List.cons_append]
      exact List.mem_append_left _ s.outermost_mem
    exact Nat.lt_irrefl _ (hall u.cls hmem)
  by_cases hsout : s.outermost = u.cls
  · by_cases htout : t.outermost = u.cls
    · unfold Subobject.place at h
      rw [if_pos hsout, if_pos htout, Subobject.mk.injEq] at h
      exact Subobject.ext h.1 (List.append_cancel_right h.2)
    · exact absurd h (hmixed s t ht hsout htout)
  · by_cases htout : t.outermost = u.cls
    · exact absurd h.symm (hmixed t s hs htout hsout)
    · unfold Subobject.place at h
      rwa [if_neg hsout, if_neg htout] at h

/-- Ambiguity of a base does not depend on where the object of the class is placed. -/
theorem unambiguousBase_iff :
    H.UnambiguousBase b u.cls ↔ ∃! t, H.Contains u t ∧ t.cls = b := by
  constructor
  · rintro ⟨s, ⟨hs, hcls⟩, hunique⟩
    refine ⟨u.place s, ⟨hs.place, by rw [Subobject.place_cls, hcls]⟩, ?_⟩
    rintro t ⟨ht, htcls⟩
    obtain ⟨s', hs', rfl⟩ := ht.exists_place
    rw [Subobject.place_cls] at htcls
    rw [hunique s' ⟨hs', htcls⟩]
  · rintro ⟨t, ⟨ht, hcls⟩, hunique⟩
    obtain ⟨s, hs, rfl⟩ := ht.exists_place
    rw [Subobject.place_cls] at hcls
    refine ⟨s, ⟨hs, hcls⟩, ?_⟩
    rintro s' ⟨hs', hcls'⟩
    exact place_injective hs' hs (hunique _ ⟨hs'.place, by rw [Subobject.place_cls, hcls']⟩)

/-! ## Computing bases and subobjects -/

/-- `std::is_base_of` for classes. -/
def isBaseOf (H : Hierarchy Class) (b c : Class) : Bool :=
  decide (c = b) || (H.bases c).attach.any fun d => H.isBaseOf b d.1
termination_by H.declared c
decreasing_by exact H.declared_lt d.2

/-- The computed test is the definition. -/
theorem isBaseOf_eq_true : H.isBaseOf b c = true ↔ H.IsBaseOf b c := by
  induction hdepth : H.declared c using Nat.strongRecOn generalizing c with
  | ind depth ih =>
    rw [isBaseOf, isBaseOf_iff, Bool.or_eq_true, decide_eq_true_eq, List.any_eq_true]
    refine or_congr_right ?_
    constructor
    · rintro ⟨d, -, hd⟩
      have hlt := H.declared_lt d.2
      exact ⟨d.1, d.2, (ih _ (hdepth ▸ hlt) rfl).mp hd⟩
    · rintro ⟨d, hmem, hd⟩
      have hlt := H.declared_lt hmem
      exact ⟨⟨d, hmem⟩, List.mem_attach _ _, (ih _ (hdepth ▸ hlt) rfl).mpr hd⟩

/-- The computed test decides it. -/
instance : Decidable (H.IsBaseOf b c) := decidable_of_iff _ isBaseOf_eq_true

/-- Whether a class is an unambiguous base of another one. -/
def isUnambiguousBase (H : Hierarchy Class) (b c : Class) : Bool :=
  match (H.subobjects (.complete c)).filter (·.cls = b) with
  | [] => false
  | t :: rest => rest.all (· = t)

/-- The computed test is the definition. -/
theorem isUnambiguousBase_eq_true : H.isUnambiguousBase b c = true ↔ H.UnambiguousBase b c := by
  have hmem : ∀ t, t ∈ (H.subobjects (.complete c)).filter (·.cls = b) ↔
      H.Contains (.complete c) t ∧ t.cls = b := by
    intro t
    rw [List.mem_filter, mem_subobjects, decide_eq_true_eq]
  unfold isUnambiguousBase UnambiguousBase
  simp only [← hmem]
  cases (H.subobjects (.complete c)).filter (·.cls = b) with
  | nil => simp [ExistsUnique]
  | cons t rest =>
    simp only [List.all_eq_true, decide_eq_true_eq, List.mem_cons, ExistsUnique]
    constructor
    · intro hall
      refine ⟨t, Or.inl rfl, ?_⟩
      rintro s (rfl | hs)
      · rfl
      · exact hall s hs
    · rintro ⟨s, -, hunique⟩ r hr
      rw [hunique r (Or.inr hr), hunique t (Or.inl rfl)]

/-- The subobject that the implicit conversion to an unambiguous base designates. -/
def upcast (H : Hierarchy Class) (b : Class) (s : Subobject Class) : Option (Subobject Class) :=
  (H.subobjects s).find? (·.cls = b)

/-- A converted object contains the result, which has the class asked for. -/
theorem contains_of_upcast (h : H.upcast b s = some t) : H.Contains s t ∧ t.cls = b := by
  have hcls := List.find?_some h
  have hmem := List.mem_of_find?_eq_some h
  exact ⟨mem_subobjects.mp hmem, of_decide_eq_true hcls⟩

/-- The conversion designates the only subobject of an unambiguous base. -/
theorem upcast_eq_some (h : H.UnambiguousBase b s.cls) :
    H.upcast b s = some t ↔ H.Contains s t ∧ t.cls = b := by
  refine ⟨contains_of_upcast, fun ht => ?_⟩
  have hunique := unambiguousBase_iff.mp h
  cases hfind : H.upcast b s with
  | none =>
    have hnone := List.find?_eq_none.mp hfind t (mem_subobjects.mpr ht.1)
    exact absurd (decide_eq_true ht.2) hnone
  | some t' => rw [hunique.unique (contains_of_upcast hfind) ht]

end Hierarchy

end CxxObject
