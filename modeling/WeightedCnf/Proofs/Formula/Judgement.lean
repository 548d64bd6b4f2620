import WeightedCnf.Solution
import WeightedCnf.Proofs.State.Decided

namespace WeightedCnf

open BranchBound

variable {f : Formula} {bits : List Bool}

theorem Assignment.value_eq {var : Nat} (first : 0 < var) (last : var ≤ bits.length) :
    ∃ value, (⟨bits.toArray⟩ : Assignment).value var = .ok value ∧
      (valuesOf bits.length bits)[var]? = some (some value) := by
  obtain ⟨i, rfl⟩ : ∃ i, var = i + 1 := ⟨var - 1, by omega⟩
  have inside : i < bits.length := by omega
  refine ⟨bits[i], ?_, ?_⟩
  · have index : subtract (i + 1) 1 = .ok i := subtract_eq_ok_iff.mpr ⟨by omega, by omega⟩
    simp only [value, index, bind, Except.bind]
    exact entry_eq_ok_iff.mpr (by simp [inside])
  · rw [getElem?_valuesOf_decided inside, List.getElem?_eq_getElem inside]

namespace Formula

theorem clause_isSatisfiedBy_eq (valid : f.Valid) (covers : bits.length = f.nVars) {c : Clause}
    (member : c ∈ f.clauses) :
    c.isSatisfiedBy ⟨bits.toArray⟩ = .ok (c.isTrue (valuesOf f.nVars bits)) := by
  apply anyM_eq_ok
  intro l literal
  obtain ⟨first, last⟩ := valid.in_range c member l literal
  rw [← covers] at last ⊢
  obtain ⟨value, read, listed⟩ := Assignment.value_eq first last
  simp only [read, bind, Except.bind, pure, Except.pure, Literal.truth?, listed, Option.join_some,
    Option.map_some]
  cases l.holds value <;> rfl

theorem requireCover_eq (covers : bits.length = f.nVars) : f.requireCover ⟨bits.toArray⟩ = .ok () := by
  simp [requireCover, Assignment.size, covers]

theorem isSatisfiedBy_eq (valid : f.Valid) (covers : bits.length = f.nVars) :
    f.isSatisfiedBy ⟨bits.toArray⟩ = .ok (f.clauses.all (Clause.isTrue (valuesOf f.nVars bits))) := by
  simp only [isSatisfiedBy, requireCover_eq covers, bind, Except.bind]
  exact allM_eq_ok fun c member => clause_isSatisfiedBy_eq valid covers member

theorem countSatisfied_eq (valid : f.Valid) (covers : bits.length = f.nVars) :
    f.countSatisfied ⟨bits.toArray⟩ =
      .ok (f.clauses.countP (Clause.isTrue (valuesOf f.nVars bits))) := by
  rw [← total_map_indicator, ← Nat.zero_add (total _)]
  simp only [countSatisfied, requireCover_eq covers, bind, Except.bind]
  refine foldlM_sum_eq_ok ?_ (Nat.le_refl _)
  intro c member count _
  simp only [clause_isSatisfiedBy_eq valid covers member, pure, Except.pure]
  cases c.isTrue (valuesOf f.nVars bits) <;> rfl

theorem weight_eq {var : Nat} (valid : f.Valid) (last : var ≤ f.nVars) :
    f.weight var = .ok (f.weights.getD var 0) := by
  have slot : var < f.weights.size := by have size := valid.weights_size; omega
  simp [weight, entry_eq_ok_iff, Array.getD, slot]

-- Every partial sum is below the sum of all weights.
theorem weightOf_eq (valid : f.Valid) (covers : bits.length = f.nVars) :
    f.weightOf ⟨bits.toArray⟩ = .ok (f.weightUnder (valuesOf f.nVars bits)) := by
  have limit := valid.weightUnder_le (valuesOf f.nVars bits)
  have small := valid.total_lt
  rw [weightUnder_eq, ← Nat.zero_add (total _)] at limit ⊢
  simp only [weightOf, requireCover_eq covers, bind, Except.bind]
  refine foldlM_sum_eq_ok ?_ limit
  intro var member sum fits
  obtain ⟨first, last⟩ := List.mem_range'_1.mp member
  have last : var ≤ f.nVars := by omega
  obtain ⟨value, read, listed⟩ := Assignment.value_eq first (covers ▸ last)
  rw [covers] at listed
  simp only [listed] at fits ⊢
  simp only [read, weight_eq valid last]
  cases value with
  | false => rfl
  | true => exact within_eq_ok_iff.mpr ⟨Nat.lt_of_le_of_lt fits small, rfl⟩

end Formula

theorem Solution.evaluate_eq (valid : f.Valid) (covers : bits.length = f.nVars) :
    Solution.evaluate f ⟨bits.toArray⟩ =
      .ok ⟨f.weightUnder (valuesOf f.nVars bits),
        f.clauses.countP (Clause.isTrue (valuesOf f.nVars bits)), f.numClauses, ⟨bits.toArray⟩⟩ := by
  simp only [Solution.evaluate, Formula.weightOf_eq valid covers, Formula.countSatisfied_eq valid covers,
    bind, Except.bind, pure, Except.pure]

end WeightedCnf
