import WeightedCnf.LocalSearch.Solver
import WeightedCnf.Proofs.BranchBound.Solve
import WeightedCnf.Proofs.LocalSearch.Moves

namespace WeightedCnf

open BranchBound State

def Formula.IsHeaviestModel (f : Formula) (a : Assignment) : Prop :=
  a.size = f.nVars ∧ f.isSatisfiedBy a = .ok true ∧ ∃ weight, f.weightOf a = .ok weight ∧
    ∀ b : Assignment, b.size = f.nVars → f.isSatisfiedBy b = .ok true →
      ∃ lighter, f.weightOf b = .ok lighter ∧ lighter ≤ weight

namespace LocalSearch
open Annealing

variable {f : Formula} {bits : List Bool}

theorem isHeaviestModel_iff (valid : f.Valid) (complete : bits.length = f.nVars) :
    f.IsHeaviestModel ⟨bits.toArray⟩ ↔
      IsModel f bits ∧ ∀ other, other.length = f.nVars → IsModel f other →
        bitWeight f other ≤ bitWeight f bits := by
  have weighed := Formula.weightOf_eq valid complete
  constructor
  · rintro ⟨_, satisfied, weight, equal, heaviest⟩
    rw [weighed, Except.ok.injEq] at equal
    refine ⟨(isSatisfiedBy_eq_true_iff valid complete).mp satisfied, ?_⟩
    intro other covers model
    obtain ⟨lighter, same, below⟩ :=
      heaviest ⟨other.toArray⟩ covers ((isSatisfiedBy_eq_true_iff valid covers).mpr model)
    rw [Formula.weightOf_eq valid covers, Except.ok.injEq] at same
    rw [← same, ← equal] at below
    exact below
  · rintro ⟨model, heaviest⟩
    refine ⟨complete, (isSatisfiedBy_eq_true_iff valid complete).mpr model, _, weighed, ?_⟩
    rintro ⟨⟨other⟩⟩ covers satisfied
    exact ⟨_, Formula.weightOf_eq valid covers,
      heaviest other covers ((isSatisfiedBy_eq_true_iff valid covers).mp satisfied)⟩

theorem scoreUnder_model (model : IsModel f bits) :
    f.scoreUnder (valuesOf f.nVars bits) =
      (total f.weights.toList + 1) * f.numClauses + bitWeight f bits := by
  have all : f.clauses.countP (Clause.isTrue (valuesOf f.nVars bits)) = f.numClauses :=
    List.countP_eq_length.mpr (List.all_eq_true.mp model)
  rw [Formula.scoreUnder, all, bitWeight]

-- One clause less costs more than all variables together weigh.
theorem scoreUnder_lt_of_not_model (valid : f.Valid) (falsified : ¬ IsModel f bits) :
    f.scoreUnder (valuesOf f.nVars bits) < (total f.weights.toList + 1) * f.numClauses := by
  have fewer : f.clauses.countP (Clause.isTrue (valuesOf f.nVars bits)) < f.numClauses := by
    refine Nat.lt_of_le_of_ne List.countP_le_length fun all => falsified ?_
    exact List.all_eq_true.mpr (List.countP_eq_length.mp all)
  have light := valid.weightUnder_le (valuesOf f.nVars bits)
  have product := Nat.mul_le_mul_left (total f.weights.toList + 1) (Nat.succ_le_of_lt fewer)
  rw [Nat.mul_succ] at product
  rw [Formula.scoreUnder]
  omega

theorem scoreUnder_le_optimum (valid : f.Valid) (complete : bits.length = f.nVars)
    {record : Incumbent} (found : (walkAll f).incumbent = some record) :
    f.scoreUnder (valuesOf f.nVars bits) ≤
        (total f.weights.toList + 1) * f.numClauses + record.weight ∧
      (f.scoreUnder (valuesOf f.nVars bits) =
          (total f.weights.toList + 1) * f.numClauses + record.weight ↔
        f.IsHeaviestModel ⟨bits.toArray⟩) := by
  obtain ⟨best, rfl, covers, model, leads⟩ := walkAll_eq_some valid found
  rw [isHeaviestModel_iff valid complete]
  change _ ≤ _ + bitWeight f best ∧ (_ = _ + bitWeight f best ↔ _)
  by_cases own : IsModel f bits
  · have lighter := (leads bits complete own).1
    rw [scoreUnder_model own]
    refine ⟨by omega, fun equal => ⟨own, ?_⟩, fun heaviest => ?_⟩
    · intro other total satisfied
      have bound := (leads other total satisfied).1
      omega
    · have bound := heaviest.2 best covers model
      omega
  · have less := scoreUnder_lt_of_not_model valid own
    refine ⟨by omega, fun equal => ?_, fun heaviest => absurd heaviest.1 own⟩
    omega

theorem restarts_pos_of_validate {settings : Settings} (checked : settings.validate = .ok ()) :
    0 < settings.limits.restarts := by
  simp only [Settings.validate, bind_eq_ok_iff] at checked
  obtain ⟨_, _, _, counted, _⟩ := checked
  unfold Settings.requirePositive at counted
  split at counted
  · cases counted
  · exact Nat.pos_of_ne_zero ‹_›

theorem prepare_eq (fit : f.Searchable) {settings : Settings} (checked : settings.validate = .ok ()) :
    ∃ l, Landscape.Describes l f ∧
      Solver.prepare f settings = .ok ⟨f, l, settings.plan, settings.limits⟩ := by
  obtain ⟨index, made, tables⟩ := Occurrences.ofFormula_tables fit.toValid
  obtain ⟨l, prepared, _, describes⟩ := Landscape.ofFormula_describes fit.toValid tables
  refine ⟨l, describes, ?_⟩
  have prepared : Solver.prepareWith f index settings =
      .ok ⟨f, l, settings.plan, settings.limits⟩ := by
    rw [Solver.prepareWith, checked, prepared]
    rfl
  rw [Solver.prepare, made]
  exact prepared

variable {σ : Type} [WordSource σ]

-- A finished run has met a best state, and its solution is the evaluation of that state.
theorem runWithin_eq_ok (fit : f.Searchable) {l : Landscape} (describes : l.Describes f) {plan : Plan}
    {limits : Limits} (restarted : 0 < limits.restarts) {fuel : Nat} {source rest : σ} {result : Result}
    (ran : (⟨f, l, plan, limits⟩ : Solver).runWithin fuel source = .ok (result, rest)) :
    ∃ bits : List Bool, bits.length = f.nVars ∧
      result.score = f.scoreUnder (valuesOf f.nVars bits) ∧
      result.solution = ⟨f.weightUnder (valuesOf f.nVars bits),
        f.clauses.countP (Clause.isTrue (valuesOf f.nVars bits)), f.numClauses, ⟨bits.toArray⟩⟩ := by
  obtain ⟨outcome, between, annealed, judged⟩ := Draw.bind_eq_ok ran
  obtain ⟨last, moment, left⟩ := run_leftBy restarted annealed
  obtain ⟨s, best, total⟩ := (moment.keeps (problem_sound fit describes plan)).best
  obtain ⟨bits, complete, rfl⟩ := (isTotal_iff fit describes).mp total
  refine ⟨bits, complete, ?_⟩
  have picked : (⟨f, l, plan, limits⟩ : Solver).best outcome =
      .ok (f.scoreUnder (valuesOf f.nVars bits), ⟨bits.toArray⟩) := by
    simp only [Solver.best, left, best, Landscape.score_recount fit.toValid describes,
      toAssignment_full complete, bind, Except.bind, pure, Except.pure]
  rw [Draw.bind_of_eq_ok (Draw.lift_of_eq_ok picked between)] at judged
  dsimp only at judged
  rw [Draw.bind_of_eq_ok
    (Draw.lift_of_eq_ok (Solution.evaluate_eq fit.toValid complete) between)] at judged
  cases judged
  exact ⟨rfl, rfl⟩

-- A result beside the outcome of the exact search. Its score is that of its assignment; without a model
-- it is not satisfying, and with one its score is at most that of the heaviest model.
structure Result.Bounded (f : Formula) (sum : Nat) (outcome : BranchBound.Outcome) (r : Result) : Prop where
  evaluated : Solution.evaluate f r.solution.assignment = .ok r.solution
  score_eq : r.score = (sum + 1) * r.solution.satisfied + r.solution.weight
  unsatisfiable : outcome.solution = none → r.solution.isSatisfying = false
  score_le : ∀ best, outcome.solution = some best →
    r.score ≤ (sum + 1) * f.numClauses + best.weight
  score_eq_iff : ∀ best, outcome.solution = some best →
    (r.score = (sum + 1) * f.numClauses + best.weight ↔ f.IsHeaviestModel r.solution.assignment)
  weight_le : ∀ best, outcome.solution = some best → r.solution.isSatisfying = true →
    r.solution.weight ≤ best.weight

theorem isSatisfying_iff {weight : Nat} {a : Assignment} :
    Solution.isSatisfying ⟨weight, f.clauses.countP (Clause.isTrue (valuesOf f.nVars bits)),
      f.numClauses, a⟩ = true ↔ IsModel f bits := by
  rw [Solution.isSatisfying, beq_iff_eq, IsModel, List.all_eq_true]
  exact List.countP_eq_length

theorem bounded_of_bits (valid : f.Valid) (complete : bits.length = f.nVars) {result : Result}
    (scored : result.score = f.scoreUnder (valuesOf f.nVars bits))
    (judged : result.solution = ⟨f.weightUnder (valuesOf f.nVars bits),
      f.clauses.countP (Clause.isTrue (valuesOf f.nVars bits)), f.numClauses, ⟨bits.toArray⟩⟩) :
    result.Bounded f (total f.weights.toList)
      ⟨(walkAll f).incumbent.map (·.solution f), (walkAll f).incumbent.map (·.weight),
        (walkAll f).stats.words⟩ := by
  have optimum : ∀ best, (walkAll f).incumbent.map (·.solution f) = some best →
      ∃ record, (walkAll f).incumbent = some record ∧ best.weight = record.weight := by
    intro best answered
    obtain ⟨record, found, rfl⟩ := Option.map_eq_some_iff.mp answered
    exact ⟨record, found, rfl⟩
  refine ⟨?_, ?_, ?_, ?_, ?_, ?_⟩
  · rw [judged]
    exact Solution.evaluate_eq valid complete
  · rw [scored, judged]
    rfl
  · intro none
    rw [Option.map_eq_none_iff, walkAll_eq_none_iff valid] at none
    rw [judged, ← Bool.not_eq_true, isSatisfying_iff]
    exact fun model => none ⟨bits, complete, model⟩
  · intro best answered
    obtain ⟨record, found, same⟩ := optimum best answered
    rw [scored, same]
    exact (scoreUnder_le_optimum valid complete found).1
  · intro best answered
    obtain ⟨record, found, same⟩ := optimum best answered
    rw [scored, same, judged]
    exact (scoreUnder_le_optimum valid complete found).2
  · intro best answered satisfied
    obtain ⟨record, found, same⟩ := optimum best answered
    have below := (scoreUnder_le_optimum valid complete found).1
    rw [judged, isSatisfying_iff] at satisfied
    rw [scoreUnder_model satisfied] at below
    rw [judged, same]
    exact Nat.le_of_add_le_add_left below

theorem result_never_beats_exact_search {nVars : Nat} {weights : List Nat}
    {clauses : List (List Literal)}
    (built : Formula.build nVars weights (clauses.map Clause.ofLiterals) = .ok f)
    (short : ∀ c ∈ f.clauses, c.size < word32) {settings : Settings}
    (checked : settings.validate = .ok ()) (σ : Type) [WordSource σ] :
    ∃ solver sum outcome, Solver.prepare f settings = .ok solver ∧ f.totalWeight = .ok sum ∧
      BranchBound.solve f = .ok outcome ∧
      ∀ (fuel : Nat) (source rest : σ) (result : Result),
        solver.runWithin fuel source = .ok (result, rest) → result.Bounded f sum outcome := by
  have fit : f.Searchable := ⟨Formula.valid_of_build built, short⟩
  obtain ⟨l, describes, prepared⟩ := prepare_eq fit checked
  refine ⟨_, _, _, prepared, totalWeight_eq fit.toValid, solve_eq fit, ?_⟩
  intro fuel source rest result ran
  obtain ⟨bits, complete, scored, judged⟩ :=
    runWithin_eq_ok fit describes (restarts_pos_of_validate checked) ran
  exact bounded_of_bits fit.toValid complete scored judged

-- One greedy step from all false ends in the heaviest model.
theorem result_never_beats_exact_search_one_step :
    let clauses : List (List Literal) := [[.positive 1, .positive 2], [.negative 1, .negative 2]]
    let f := Formula.ofParts 2 [3, 1] (clauses.map Clause.mk)
    let settings : Settings := ⟨2, 1, 0.99, 0.0, 0.5, 1, 1.0, some 1, .allFalse, .greediest, none⟩
    Formula.build 2 [3, 1] (clauses.map Clause.ofLiterals) = .ok f ∧ settings.validate = .ok () ∧
      ((Solver.prepare f settings).toOption.bind fun solver =>
        (solver.runWithin 2 (Scripted.ofWords [7])).toOption.map fun (result, _) =>
          (result.score, result.solution)) = some (13, ⟨3, 2, 2, ⟨#[true, false]⟩⟩) ∧
      ∃ solver sum outcome, Solver.prepare f settings = .ok solver ∧ f.totalWeight = .ok sum ∧
        BranchBound.solve f = .ok outcome ∧
        ∀ (fuel : Nat) (source rest : Scripted) (result : Result),
          solver.runWithin fuel source = .ok (result, rest) → result.Bounded f sum outcome := by
  intro clauses f settings
  have built : Formula.build 2 [3, 1] (clauses.map Clause.ofLiterals) = .ok f := rfl
  have short : ∀ c ∈ f.clauses, c.size < word32 := by decide
  have checked : settings.validate = .ok () := toOption_eq_some_iff.mp (by decide +kernel)
  exact ⟨built, checked, by decide +kernel,
    result_never_beats_exact_search built short checked Scripted⟩

end LocalSearch

end WeightedCnf
