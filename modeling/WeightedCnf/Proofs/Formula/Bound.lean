import Mathlib.Algebra.Order.BigOperators.Group.List
import Mathlib.Algebra.Order.Ring.Nat
import WeightedCnf.Proofs.Formula.Valid

-- The sum, its successor, the number of clauses and the product are each checked against a 64 bit word.
-- Whichever check fails first, the product in unbounded arithmetic is beyond the limit.

namespace WeightedCnf

theorem total_eq_sum (ns : List Nat) : total ns = ns.sum := by
  induction ns with
  | nil => rfl
  | cons n ns ih => rw [total_cons, List.sum_cons, ih]

namespace Formula

variable {weights others : List Nat} {numClauses fewer : Nat}

theorem scoreBound_congr (same : total weights = total others) :
    scoreBound weights numClauses = scoreBound others numClauses := by
  apply Option.ext
  intro bound
  rw [scoreBound_eq_some_iff, scoreBound_eq_some_iff, same]

theorem scoreBound_isSome_of_le (lighter : total others ≤ total weights) (less : fewer ≤ numClauses)
    (admitted : (scoreBound weights numClauses).isSome) : (scoreBound others fewer).isSome := by
  rw [scoreBound_isSome_iff] at admitted ⊢
  calc (total others + 1) * (fewer + 1) ≤ (total weights + 1) * (numClauses + 1) :=
        Nat.mul_le_mul (Nat.succ_le_succ lighter) (Nat.succ_le_succ less)
    _ ≤ maxScore := admitted

-- No word is too narrow for a bound that the limit admits.
theorem score_bound_is_exact (weights : List Nat) (numClauses : Nat) :
    (∀ bound, scoreBound weights numClauses = some bound ↔
      (weights.sum + 1) * (numClauses + 1) ≤ 2 ^ 53 ∧
        bound = (weights.sum + 1) * (numClauses + 1)) ∧
    (∀ shuffled : List Nat, shuffled.Perm weights →
      scoreBound shuffled numClauses = scoreBound weights numClauses) ∧
    scoreBound (0 :: weights) numClauses = scoreBound weights numClauses ∧
    ∀ (lighter : List Nat) (fewer : Nat), List.Forall₂ (· ≤ ·) lighter weights → fewer ≤ numClauses →
      (scoreBound weights numClauses).isSome → (scoreBound lighter fewer).isSome := by
  refine ⟨?_, ?_, ?_, ?_⟩
  · intro bound
    rw [scoreBound_eq_some_iff, total_eq_sum]
    exact Iff.rfl
  · intro shuffled rearranged
    apply scoreBound_congr
    rw [total_eq_sum, total_eq_sum, rearranged.sum_nat]
  · apply scoreBound_congr
    rw [total_cons, Nat.zero_add]
  · intro lighter fewer below less
    apply scoreBound_isSome_of_le ?_ less
    rw [total_eq_sum, total_eq_sum]
    exact below.sum_le_sum

-- At the limit, and beyond it by a sum and by a product that leave their words.
example : scoreBound [0, 4503599627370495] 1 = some 9007199254740992 := rfl

example : scoreBound [18446744073709551615, 1] 0 = none := rfl

example : scoreBound [4294967295] 4294967295 = none := rfl

end Formula

end WeightedCnf
