import Mathlib.Algebra.Group.Nat.Defs
import Mathlib.Tactic.Common

/-!
# Index sequences

On GCC in C++14 mode the characters of a type name are copied one by one. The
indices to copy come from a recursion over template arguments of type
`unsigned int` that halves the number of indices at every step.
-/

namespace TypeIndex

/-- Addition of `unsigned int` values. -/
def uintAdd (a b : ℕ) : ℕ := (a + b) % 2 ^ 32

/-- A sum that fits does not wrap. -/
theorem uintAdd_of_lt {a b : ℕ} (h : a + b < 2 ^ 32) : uintAdd a b = a + b := Nat.mod_eq_of_lt h

/-- A sum that wraps gets smaller. -/
theorem uintAdd_le (a b : ℕ) : uintAdd a b ≤ a + b := Nat.mod_le _ _

/-- `make_index_sequence_join` of two index sequences. -/
def makeIndexSequenceJoin (left right : List ℕ) : List ℕ := left ++ right

/-- `make_index_seq_impl<C, D>::type`, with its two specialisations first. -/
def makeIndexSeqImpl : ℕ → ℕ → List ℕ
  | _, 0 => []
  | C, 1 => [C]
  | C, D + 2 =>
    makeIndexSequenceJoin (makeIndexSeqImpl C ((D + 2) / 2))
      (makeIndexSeqImpl (uintAdd C ((D + 2) / 2)) (uintAdd (D + 2) 1 / 2))
termination_by _ D => D
decreasing_by
  · omega
  · have hle := uintAdd_le (D + 2) 1
    omega

/-- The recursion lists the `D` indices from `C` on, in increasing order. -/
theorem makeIndexSeqImpl_eq (C D : ℕ) (hindex : C + D ≤ 2 ^ 32) (hcount : D + 1 < 2 ^ 32) :
    makeIndexSeqImpl C D = List.range' C D := by
  induction C, D using makeIndexSeqImpl.induct with
  | case1 C => rw [makeIndexSeqImpl, List.range'_zero]
  | case2 C => rw [makeIndexSeqImpl, List.range'_one]
  | case3 C D ihLeft ihRight =>
    have hC : uintAdd C ((D + 2) / 2) = C + (D + 2) / 2 := uintAdd_of_lt (by omega)
    have hD : uintAdd (D + 2) 1 = D + 2 + 1 := uintAdd_of_lt hcount
    rw [hC, hD] at ihRight
    have hleft := ihLeft (by omega) (by omega)
    have hright := ihRight (by omega) (by omega)
    have hsum : D + 2 = (D + 2) / 2 + (D + 2 + 1) / 2 := by omega
    rw [makeIndexSeqImpl, hC, hD, hleft, hright, makeIndexSequenceJoin, List.range'_append_1,
      ← hsum]

/-! ## The instantiations behind a sequence -/

/-- The instantiations of `make_index_seq_impl` that one of them leads to. The
specialisations for no index and for one index lead to no further ones. -/
inductive Instantiates (C D : ℕ) : ℕ → ℕ → Prop
  | root : Instantiates C D C D
  | left {C' D' : ℕ} : Instantiates C D C' (D' + 2) → Instantiates C D C' ((D' + 2) / 2)
  | right {C' D' : ℕ} : Instantiates C D C' (D' + 2) →
    Instantiates C D (uintAdd C' ((D' + 2) / 2)) (uintAdd (D' + 2) 1 / 2)

/-- The indices of every instantiation lie among those of the first one. -/
theorem Instantiates.bounds {C D C' D' : ℕ} (h : Instantiates C D C' D')
    (hlt : C + D + 1 < 2 ^ 32) : C ≤ C' ∧ C' + D' ≤ C + D := by
  induction h with
  | root => omega
  | left _ ih => omega
  | @right C' D' _ ih =>
    have hC : uintAdd C' ((D' + 2) / 2) = C' + (D' + 2) / 2 := uintAdd_of_lt (by omega)
    have hD : uintAdd (D' + 2) 1 = D' + 2 + 1 := uintAdd_of_lt (by omega)
    omega

/-- The recursion of `make_index_seq_impl`: no addition of any instantiation wraps
around, both halves are smaller than the whole, so that it ends, and its type lists
the `D` indices from `C` on. -/
theorem makeIndexSeqImpl_contract {C D : ℕ} (h : C + D + 1 < 2 ^ 32) :
    (∀ C' D', Instantiates C D C' D' → 2 ≤ D' →
      C' + D' / 2 < 2 ^ 32 ∧ D' + 1 < 2 ^ 32 ∧ D' / 2 < D' ∧ uintAdd D' 1 / 2 < D') ∧
    makeIndexSeqImpl C D = List.range' C D ∧
    (makeIndexSeqImpl C D).length = D ∧ (makeIndexSeqImpl C D).Pairwise (· < ·) ∧
    ∀ I, I ∈ makeIndexSeqImpl C D ↔ C ≤ I ∧ I < C + D := by
  have heq := makeIndexSeqImpl_eq C D (by omega) (by omega)
  refine ⟨fun C' D' hinst htwo => ?_, heq, ?_, ?_, fun I => ?_⟩
  · have hbounds := hinst.bounds h
    have hsucc := uintAdd_le D' 1
    omega
  · rw [heq, List.length_range']
  · rw [heq]
    exact List.pairwise_lt_range'
  · rw [heq, List.mem_range'_1]

/-- The five indices from 80 on. -/
theorem makeIndexSeqImpl_contract_five :
    (∀ C' D', Instantiates 80 5 C' D' → 2 ≤ D' →
      C' + D' / 2 < 2 ^ 32 ∧ D' + 1 < 2 ^ 32 ∧ D' / 2 < D' ∧ uintAdd D' 1 / 2 < D') ∧
    makeIndexSeqImpl 80 5 = List.range' 80 5 ∧
    (makeIndexSeqImpl 80 5).length = 5 ∧ (makeIndexSeqImpl 80 5).Pairwise (· < ·) ∧
    ∀ I, I ∈ makeIndexSeqImpl 80 5 ↔ 80 ≤ I ∧ I < 80 + 5 :=
  makeIndexSeqImpl_contract (by omega)

end TypeIndex
