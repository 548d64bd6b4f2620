import WeightedCnf.Proofs.BranchBound.Words
import WeightedCnf.Proofs.BranchBound.Optimality
import WeightedCnf.Proofs.Formula.Judgement

namespace WeightedCnf

def Assignment.Before (a b : Assignment) : Prop :=
  BranchBound.Before a.values.toList b.values.toList

namespace BranchBound
open Occurrences State

variable {f : Formula} {index : Occurrences}

theorem totalWeight_eq (valid : f.Valid) : f.totalWeight = .ok (total f.weights.toList) :=
  sum64_eq_ok_iff.mpr ⟨valid.total_lt, rfl⟩

theorem run_start (fit : f.Searchable) (tables : Tables f f.positions index) :
    run f.nVars index (.start index (total f.weights.toList)) =
      .ok ((walkAll f).search [] (recount f (valuesOf f.nVars []))) := by
  have whole := openWeight_zero fit.toValid
  have fits : 0 + openWeight f ([] : List Bool).length < word64 := by
    rw [Nat.zero_add, List.length_nil, whole]
    exact fit.total_lt
  have visit := @run_visit f index [] 0 [] fit tables f.nVars (Nat.zero_add _) fits ⟨none, .empty⟩
  rw [List.length_nil, whole, ← fresh_eq_recount fit tables] at visit
  rw [← fresh_eq_recount fit tables]
  exact visit.trans (run_nil rfl)

theorem run_start_words (fit : f.Searchable) (tables : Tables f f.positions index) :
    run f.nVars index (.start index (total f.weights.toList)) =
      .ok ((walkAll f).search [] (recount f (valuesOf f.nVars []))).words :=
  run_words (run_start fit tables)

-- A satisfying assignment satisfies all the clauses that there are.
def Incumbent.solution (f : Formula) (best : Incumbent) : Solution :=
  ⟨best.weight, f.numClauses, f.numClauses, best.assignment⟩

theorem evaluate_noted (valid : f.Valid) {bits : List Bool} (covers : bits.length = f.nVars)
    (model : IsModel f bits) :
    Solution.evaluate f (noted f bits).assignment = .ok ((noted f bits).solution f) := by
  have all : f.clauses.countP (Clause.isTrue (valuesOf f.nVars bits)) = f.numClauses :=
    List.countP_eq_length.mpr (List.all_eq_true.mp model)
  rw [noted, Solution.evaluate_eq valid covers, all]
  rfl

theorem solve_eq (fit : f.Searchable) :
    solve f = .ok ⟨(walkAll f).incumbent.map (·.solution f), (walkAll f).incumbent.map (·.weight),
      (walkAll f).stats.words⟩ := by
  obtain ⟨index, made, tables⟩ := ofFormula_tables fit.toValid
  simp only [solve, solveWith, made, totalWeight_eq fit.toValid, run_start_words fit tables,
    Tour.search, Search.words, bind, Except.bind, pure, Except.pure]
  cases found : (walkAll f).incumbent with
  | none => rfl
  | some best =>
    obtain ⟨bits, rfl, covers, model, _⟩ := walkAll_eq_some fit.toValid found
    simp only [evaluate_noted fit.toValid covers model, Option.map_some]

-- The run over the stack and the recursion end with the same incumbent and the same statistics. The
-- recursion counts in natural numbers, and so does the run beside the one of the answer, which holds the
-- same counts in words.
theorem stack_run_is_recursive_walk {nVars : Nat} {weights : List Nat} {clauses : List (List Literal)}
    (built : Formula.build nVars weights (clauses.map Clause.ofLiterals) = .ok f)
    (short : ∀ c ∈ f.clauses, c.size < word32) :
    ∃ index sum, ∃ final : Search Nat, ∃ outcome, Occurrences.ofFormula f = .ok index ∧
      f.totalWeight = .ok sum ∧ walkAll f = walk f f.nVars [] sum 0 ⟨none, .empty⟩ ∧
      run f.nVars index (.start index sum) = .ok final ∧
      run f.nVars index (.start index sum) = .ok final.words ∧
      final.incumbent = (walkAll f).incumbent ∧ final.stats = (walkAll f).stats ∧
      solve f = .ok outcome ∧ outcome.stats = (walkAll f).stats.words ∧
      outcome.bestWeight = (walkAll f).incumbent.map (·.weight) ∧
      outcome.solution.map (·.assignment) = (walkAll f).incumbent.map (·.assignment) := by
  have fit : f.Searchable := ⟨Formula.valid_of_build built, short⟩
  obtain ⟨index, made, tables⟩ := ofFormula_tables fit.toValid
  refine ⟨index, _, _, _, made, totalWeight_eq fit.toValid, rfl, run_start fit tables,
    run_start_words fit tables, rfl, rfl, solve_eq fit, rfl, rfl, ?_⟩
  rw [Option.map_map]
  rfl

-- Both kinds of prune occur on this formula, and the incumbent is replaced once.
theorem stack_run_is_recursive_walk_replaced :
    let clauses : List (List Literal) := [[.positive 1, .positive 2], [.negative 1, .negative 2]]
    let f := Formula.ofParts 2 [3, 2] (clauses.map Clause.mk)
    Formula.build 2 [3, 2] (clauses.map Clause.ofLiterals) = .ok f ∧
      (walkAll f).incumbent = some ⟨3, ⟨#[true, false]⟩⟩ ∧
      (walkAll f).stats = ⟨7, 2, 2, 0, 2, #[⟨2, 2⟩, ⟨3, 2⟩]⟩ ∧
      ∃ index sum, ∃ final : Search Nat, ∃ outcome, Occurrences.ofFormula f = .ok index ∧
        f.totalWeight = .ok sum ∧ walkAll f = walk f f.nVars [] sum 0 ⟨none, .empty⟩ ∧
        run f.nVars index (.start index sum) = .ok final ∧
        run f.nVars index (.start index sum) = .ok final.words ∧
        final.incumbent = (walkAll f).incumbent ∧ final.stats = (walkAll f).stats ∧
        solve f = .ok outcome ∧ outcome.stats = (walkAll f).stats.words ∧
        outcome.bestWeight = (walkAll f).incumbent.map (·.weight) ∧
        outcome.solution.map (·.assignment) = (walkAll f).incumbent.map (·.assignment) := by
  intro clauses f
  have built : Formula.build 2 [3, 2] (clauses.map Clause.ofLiterals) = .ok f := rfl
  have short : ∀ c ∈ f.clauses, c.size < word32 := by decide
  exact ⟨built, by decide, by decide, stack_run_is_recursive_walk built short⟩

theorem isSatisfiedBy_eq_true_iff (valid : f.Valid) {bits : List Bool} (covers : bits.length = f.nVars) :
    f.isSatisfiedBy ⟨bits.toArray⟩ = .ok true ↔ IsModel f bits := by
  rw [Formula.isSatisfiedBy_eq valid covers, Except.ok.injEq, IsModel]

theorem exists_satisfying_iff (valid : f.Valid) :
    (∃ a : Assignment, a.size = f.nVars ∧ f.isSatisfiedBy a = .ok true) ↔
      ∃ bits, bits.length = f.nVars ∧ IsModel f bits := by
  constructor
  · rintro ⟨⟨⟨bits⟩⟩, covers, satisfied⟩
    exact ⟨bits, covers, (isSatisfiedBy_eq_true_iff valid covers).mp satisfied⟩
  · rintro ⟨bits, covers, model⟩
    exact ⟨⟨bits.toArray⟩, covers, (isSatisfiedBy_eq_true_iff valid covers).mpr model⟩

-- There is no answer exactly if there is no model; an answer is a model, none is heavier, and of the
-- equally heavy ones it is the first.
theorem solve_finds_first_heaviest_model {nVars : Nat} {weights : List Nat}
    {clauses : List (List Literal)}
    (built : Formula.build nVars weights (clauses.map Clause.ofLiterals) = .ok f)
    (short : ∀ c ∈ f.clauses, c.size < word32) :
    ∃ outcome, solve f = .ok outcome ∧
      (outcome.solution = none ↔
        ¬ ∃ a : Assignment, a.size = f.nVars ∧ f.isSatisfiedBy a = .ok true) ∧
      ∀ s, outcome.solution = some s →
        s.assignment.size = f.nVars ∧ f.isSatisfiedBy s.assignment = .ok true ∧
        f.weightOf s.assignment = .ok s.weight ∧
        ∀ a : Assignment, a.size = f.nVars → f.isSatisfiedBy a = .ok true →
          ∃ weight, f.weightOf a = .ok weight ∧ weight ≤ s.weight ∧
            (weight = s.weight → s.assignment = a ∨ s.assignment.Before a) := by
  have fit : f.Searchable := ⟨Formula.valid_of_build built, short⟩
  have valid := fit.toValid
  refine ⟨_, solve_eq fit, ?_, ?_⟩
  · rw [Option.map_eq_none_iff, walkAll_eq_none_iff valid, exists_satisfying_iff valid]
  · intro s answered
    obtain ⟨record, found, rfl⟩ := Option.map_eq_some_iff.mp answered
    obtain ⟨bits, rfl, covers, model, leads⟩ := walkAll_eq_some valid found
    refine ⟨covers, (isSatisfiedBy_eq_true_iff valid covers).mpr model,
      Formula.weightOf_eq valid covers, ?_⟩
    rintro ⟨⟨other⟩⟩ total satisfied
    obtain ⟨lighter, ties⟩ :=
      leads other total ((isSatisfiedBy_eq_true_iff valid total).mp satisfied)
    refine ⟨_, Formula.weightOf_eq valid total, lighter, ?_⟩
    intro equal
    rcases ties equal with same | before
    · subst same
      exact .inl rfl
    · exact .inr before

-- Variable 3 weighs nothing, so two models are equally heavy, and the one without it is the answer.
theorem solve_finds_first_heaviest_model_tie :
    let clauses : List (List Literal) := [[.positive 1, .positive 2], [.negative 1, .negative 2]]
    let f := Formula.ofParts 3 [3, 2, 0] (clauses.map Clause.mk)
    Formula.build 3 [3, 2, 0] (clauses.map Clause.ofLiterals) = .ok f ∧
      f.isSatisfiedBy ⟨#[true, false, true]⟩ = .ok true ∧
      f.weightOf ⟨#[true, false, true]⟩ = .ok 3 ∧
      (walkAll f).incumbent = some ⟨3, ⟨#[true, false, false]⟩⟩ ∧
      ∃ outcome, solve f = .ok outcome ∧
        (outcome.solution = none ↔
          ¬ ∃ a : Assignment, a.size = f.nVars ∧ f.isSatisfiedBy a = .ok true) ∧
        ∀ s, outcome.solution = some s →
          s.assignment.size = f.nVars ∧ f.isSatisfiedBy s.assignment = .ok true ∧
          f.weightOf s.assignment = .ok s.weight ∧
          ∀ a : Assignment, a.size = f.nVars → f.isSatisfiedBy a = .ok true →
            ∃ weight, f.weightOf a = .ok weight ∧ weight ≤ s.weight ∧
              (weight = s.weight → s.assignment = a ∨ s.assignment.Before a) := by
  intro clauses f
  have built : Formula.build 3 [3, 2, 0] (clauses.map Clause.ofLiterals) = .ok f := rfl
  have short : ∀ c ∈ f.clauses, c.size < word32 := by decide
  exact ⟨built, rfl, rfl, by decide, solve_finds_first_heaviest_model built short⟩

end BranchBound

end WeightedCnf
