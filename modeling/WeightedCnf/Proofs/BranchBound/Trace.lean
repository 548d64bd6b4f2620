import WeightedCnf.Proofs.BranchBound.Trail

namespace WeightedCnf.BranchBound
open Occurrences State

variable {f : Formula} {index : Occurrences} {decided : List Bool} {below : List Frame} {frame : Frame}
  {s next : Search Nat}

-- The records of a search: the trace rises, its weights are weights of models, and the last of them is
-- the weight of the incumbent.
structure Climbs (f : Formula) (s : Search Nat) : Prop where
  rising : s.stats.weights.Pairwise (· < ·)
  models : ∀ weight ∈ s.stats.weights, ∃ bits, bits.length = f.nVars ∧ IsModel f bits ∧
    bitWeight f bits = weight
  last : s.stats.weights.getLast? = s.incumbent.map (·.weight)
  incumbent : ∀ best, s.incumbent = some best →
    ∃ bits, bits.length = f.nVars ∧ IsModel f bits ∧ best = noted f bits

namespace Climbs

theorem congr (climbs : Climbs f s) (incumbent : next.incumbent = s.incumbent)
    (trace : next.stats.trace = s.stats.trace) : Climbs f next := by
  have weights : next.stats.weights = s.stats.weights := by rw [Stats.weights, trace, Stats.weights]
  refine ⟨?_, ?_, ?_, ?_⟩
  · rw [weights]
    exact climbs.rising
  · rw [weights]
    exact climbs.models
  · rw [weights, incumbent]
    exact climbs.last
  · rw [incumbent]
    exact climbs.incumbent

theorem lt_of_improves (climbs : Climbs f s) {weight : Nat}
    (heavier : improves s.incumbent weight = true) : ∀ earlier ∈ s.stats.weights, earlier < weight := by
  intro earlier member
  have last := climbs.last
  cases found : s.incumbent with
  | none =>
    rw [found, Option.map_none, List.getLast?_eq_none_iff] at last
    rw [last] at member
    cases member
  | some best =>
    rw [found, Option.map_some] at last
    obtain ⟨before, split⟩ := List.getLast?_eq_some_iff.mp last
    have more : best.weight < weight := by simpa [found, improves] using heavier
    have rising := climbs.rising
    rw [split] at rising member
    rcases List.mem_append.mp member with first | final
    · have less := (List.pairwise_append.mp rising).2.2 earlier first best.weight (by simp)
      omega
    · rw [List.mem_singleton.mp final]
      exact more

theorem push (climbs : Climbs f s) {bits : List Bool} {depth : Nat} (covers : bits.length = f.nVars)
    (model : IsModel f bits) (heavier : improves s.incumbent (bitWeight f bits) = true)
    (incumbent : next.incumbent = some (noted f bits))
    (trace : next.stats.trace = s.stats.trace.push ⟨bitWeight f bits, depth⟩) : Climbs f next := by
  have weights : next.stats.weights = s.stats.weights ++ [bitWeight f bits] := by
    simp [Stats.weights, trace]
  refine ⟨?_, ?_, ?_, ?_⟩
  · rw [weights, List.pairwise_append]
    refine ⟨climbs.rising, List.pairwise_singleton _ _, ?_⟩
    intro earlier member latest equal
    rw [List.mem_singleton.mp equal]
    exact climbs.lt_of_improves heavier earlier member
  · intro weight member
    rw [weights] at member
    rcases List.mem_append.mp member with earlier | latest
    · exact climbs.models weight earlier
    · exact ⟨bits, covers, model, (List.mem_singleton.mp latest).symm⟩
  · rw [weights, incumbent, List.getLast?_concat]
    rfl
  · intro best found
    rw [incumbent] at found
    exact ⟨bits, covers, model, (Option.some.inj found).symm⟩

end Climbs

theorem start_climbs (f : Formula) (index : Occurrences) (sum : Nat) :
    Climbs f (.start index sum) := by
  refine ⟨List.Pairwise.nil, ?_, rfl, ?_⟩
  · intro weight member
    cases member
  · intro best found
    cases found

theorem bitWeight_leastCompletion (fits : decided.length ≤ f.nVars) :
    bitWeight f (leastCompletion f decided) = bitWeight f decided :=
  bitWeight_falses f decided _ (by omega)

theorem Climbs.advance (climbs : Climbs f s) (on : OnTrail f s) (top : s.stack = frame :: below)
    {nVars : Nat} (does : Does nVars frame below s next) : Climbs f next := by
  cases does with
  | branches _ _ _ _ _ _ incumbent stats => exact climbs.congr incumbent (by rw [stats])
  | leaves _ _ incumbent stats => exact climbs.congr incumbent (by rw [stats])
  | enters stage _ _ records =>
    cases records with
    | nothing incumbent trace => exact climbs.congr incumbent trace
    | improvement heavier satisfied incumbent trace =>
      obtain ⟨decided, rfl, trail, state⟩ := on.entered top stage
      have completes := leastCompletion_completes trail.length_le
      have weight := bitWeight_leastCompletion trail.length_le
      rw [state, isSatisfied_recount] at satisfied
      rw [state, toAssignment_recount] at incumbent
      simp only [node, ← weight] at heavier incumbent trace
      exact climbs.push completes.2 (isModel_of_satisfied completes satisfied) heavier incumbent trace

theorem Reached.climbs (fit : f.Searchable) (tables : Tables f f.positions index) {count : Nat}
    (reached : Reached f.nVars index (.start index (total f.weights.toList)) count s) : Climbs f s := by
  induction reached with
  | start => exact start_climbs f index _
  | step earlier top stepped ih => exact ih.advance (earlier.onTrail fit tables) top (advance_does stepped)

-- At a node three weights are one: of the frame, of the state, and of the assignment that reads the
-- open variables as false.
theorem OnTrail.weights_agree (valid : f.Valid) (on : OnTrail f s) (top : s.stack = frame :: below)
    (stage : frame.stage = .enter) :
    s.state.trueWeight = frame.current ∧ f.weightOf s.state.toAssignment = .ok frame.current := by
  obtain ⟨decided, rfl, trail, state⟩ := on.entered top stage
  have fits := trail.length_le
  refine ⟨by rw [state]; rfl, ?_⟩
  have covers := (leastCompletion_completes fits).2
  rw [state, toAssignment_recount]
  exact (Formula.weightOf_eq valid covers).trans (congrArg Except.ok (bitWeight_leastCompletion fits))

namespace Climbs

theorem weights_eq_nil_iff (climbs : Climbs f s) : s.stats.weights = [] ↔ s.incumbent = none := by
  rw [← List.getLast?_eq_none_iff, climbs.last, Option.map_eq_none_iff]

theorem exists_assignment (valid : f.Valid) (climbs : Climbs f s) {weight : Nat}
    (member : weight ∈ s.stats.weights) :
    ∃ a : Assignment, a.size = f.nVars ∧ f.isSatisfiedBy a = .ok true ∧ f.weightOf a = .ok weight := by
  obtain ⟨bits, covers, model, rfl⟩ := climbs.models weight member
  exact ⟨⟨bits.toArray⟩, covers, (isSatisfiedBy_eq_true_iff valid covers).mpr model,
    Formula.weightOf_eq valid covers⟩

theorem judged (valid : f.Valid) (climbs : Climbs f s) {best : Incumbent}
    (found : s.incumbent = some best) :
    s.stats.weights.getLast? = some best.weight ∧
      f.isSatisfiedBy best.assignment = .ok true ∧ f.weightOf best.assignment = .ok best.weight ∧
      Solution.evaluate f (best.solution f).assignment = .ok (best.solution f) := by
  obtain ⟨bits, covers, model, rfl⟩ := climbs.incumbent best found
  refine ⟨?_, (isSatisfiedBy_eq_true_iff valid covers).mpr model, Formula.weightOf_eq valid covers,
    evaluate_noted valid covers model⟩
  rw [climbs.last, found, Option.map_some]

end Climbs

-- The trace rises from model to model, it is empty exactly if there is no answer, and it ends with the
-- weight of the answer, which judging the answer anew confirms. All through the walk the weights of
-- frame, state and assignment are the same at every node that is entered, and the incumbent is a model
-- with the last weight of the trace.
theorem trace_climbs_to_answer {nVars : Nat} {weights : List Nat} {clauses : List (List Literal)}
    (built : Formula.build nVars weights (clauses.map Clause.ofLiterals) = .ok f)
    (short : ∀ c ∈ f.clauses, c.size < word32) :
    ∃ index sum outcome, Occurrences.ofFormula f = .ok index ∧ f.totalWeight = .ok sum ∧
      solve f = .ok outcome ∧ outcome.stats.weights.Pairwise (· < ·) ∧
      (∀ weight ∈ outcome.stats.weights, ∃ a : Assignment, a.size = f.nVars ∧
        f.isSatisfiedBy a = .ok true ∧ f.weightOf a = .ok weight) ∧
      (outcome.stats.weights = [] ↔ outcome.solution = none) ∧
      (∀ answer, outcome.solution = some answer →
        outcome.stats.weights.getLast? = some answer.weight ∧
        outcome.bestWeight = some answer.weight ∧
        Solution.evaluate f answer.assignment = .ok answer) ∧
      ∀ count, ∀ s : Search UInt64, Reached f.nVars index (.start index sum) count s →
        (∀ frame below, s.stack = frame :: below → frame.stage = .enter →
          s.state.trueWeight = frame.current ∧
          f.weightOf s.state.toAssignment = .ok frame.current) ∧
        ∀ best, s.incumbent = some best →
          s.stats.weights.getLast? = some best.weight ∧
          f.isSatisfiedBy best.assignment = .ok true ∧ f.weightOf best.assignment = .ok best.weight := by
  have fit : f.Searchable := ⟨Formula.valid_of_build built, short⟩
  have valid := fit.toValid
  obtain ⟨index, made, tables⟩ := ofFormula_tables valid
  obtain ⟨steps, final, _, ends, _, walked⟩ := reached_walkAll fit tables
  have climbs := ends.climbs fit tables
  have solved := solve_eq fit
  rw [← walked] at solved
  refine ⟨index, _, _, made, totalWeight_eq valid, solved, climbs.rising, ?_, ?_, ?_, ?_⟩
  · intro weight member
    exact climbs.exists_assignment valid member
  · exact climbs.weights_eq_nil_iff.trans Option.map_eq_none_iff.symm
  · intro answer answered
    obtain ⟨best, found, rfl⟩ := Option.map_eq_some_iff.mp answered
    obtain ⟨last, _, _, judged⟩ := climbs.judged valid found
    exact ⟨last, congrArg (Option.map (·.weight)) found, judged⟩
  · intro count s reached
    obtain ⟨counted, beside, rfl⟩ := reached.counted
    refine ⟨?_, ?_⟩
    · intro frame below top stage
      exact (beside.onTrail fit tables).weights_agree valid top stage
    · intro best found
      obtain ⟨last, satisfied, weight, _⟩ := (beside.climbs fit tables).judged valid found
      exact ⟨last, satisfied, weight⟩

-- The trace has two entries; the answer is the second.
theorem trace_climbs_to_answer_twice :
    let clauses : List (List Literal) := [[.positive 1, .positive 2], [.negative 1, .negative 2]]
    let f := Formula.ofParts 3 [3, 2, 0] (clauses.map Clause.mk)
    Formula.build 3 [3, 2, 0] (clauses.map Clause.ofLiterals) = .ok f ∧
      (walkAll f).stats.weights = [2, 3] ∧
      ∃ index sum outcome, Occurrences.ofFormula f = .ok index ∧ f.totalWeight = .ok sum ∧
        solve f = .ok outcome ∧ outcome.stats.weights.Pairwise (· < ·) ∧
        (∀ weight ∈ outcome.stats.weights, ∃ a : Assignment, a.size = f.nVars ∧
          f.isSatisfiedBy a = .ok true ∧ f.weightOf a = .ok weight) ∧
        (outcome.stats.weights = [] ↔ outcome.solution = none) ∧
        (∀ answer, outcome.solution = some answer →
          outcome.stats.weights.getLast? = some answer.weight ∧
          outcome.bestWeight = some answer.weight ∧
          Solution.evaluate f answer.assignment = .ok answer) ∧
        ∀ count, ∀ s : Search UInt64, Reached f.nVars index (.start index sum) count s →
          (∀ frame below, s.stack = frame :: below → frame.stage = .enter →
            s.state.trueWeight = frame.current ∧
            f.weightOf s.state.toAssignment = .ok frame.current) ∧
          ∀ best, s.incumbent = some best →
            s.stats.weights.getLast? = some best.weight ∧
            f.isSatisfiedBy best.assignment = .ok true ∧
            f.weightOf best.assignment = .ok best.weight := by
  intro clauses f
  have built : Formula.build 3 [3, 2, 0] (clauses.map Clause.ofLiterals) = .ok f := rfl
  have short : ∀ c ∈ f.clauses, c.size < word32 := by decide
  exact ⟨built, by decide, trace_climbs_to_answer built short⟩

end WeightedCnf.BranchBound
