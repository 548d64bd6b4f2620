import Mathlib.Data.Fintype.BigOperators
import WeightedCnf.Proofs.Annealing.Ascent
import WeightedCnf.Proofs.LocalSearch.Moves

namespace WeightedCnf.LocalSearch

open BranchBound State Annealing

def higher (f : Formula) (s : State) : Finset (List.Vector Bool f.nVars) :=
  Finset.univ.filter fun bits => f.scoreUnder s.values < f.scoreUnder (valuesOf f.nVars bits.toList)

def IsPeak (f : Formula) (l : Landscape) (s : State) : Prop :=
  ∀ var, 0 < var → var ≤ f.nVars → ∃ t score, s.flip l.index var = .ok t ∧ l.score t = .ok score ∧
    score ≤ f.scoreUnder s.values

variable {σ : Type} [WordSource σ] {f : Formula} {l : Landscape}

theorem card_higher_lt (fit : f.Searchable) (describes : l.Describes f) {s : State}
    (total : s.IsTotal f l.index) : (higher f s).card < 2 ^ f.nVars := by
  obtain ⟨bits, complete, rfl⟩ := (isTotal_iff fit describes).mp total
  have outside : (⟨bits, complete⟩ : List.Vector Bool f.nVars) ∉
      higher f (recount f (valuesOf f.nVars bits)) := by
    intro member
    exact Nat.lt_irrefl _ (Finset.mem_filter.mp member).2
  have fewer : (higher f (recount f (valuesOf f.nVars bits))).card <
      Fintype.card (List.Vector Bool f.nVars) := Finset.card_lt_univ_of_notMem outside
  rw [card_vector, Fintype.card_bool] at fewer
  exact fewer

-- The assignments above a state are above a lower state too, and so is the state itself.
theorem card_higher_lt_of_lt (fit : f.Searchable) (describes : l.Describes f) {s t : State}
    (total : t.IsTotal f l.index) (less : f.scoreUnder s.values < f.scoreUnder t.values) :
    (higher f t).card < (higher f s).card := by
  obtain ⟨bits, complete, rfl⟩ := (isTotal_iff fit describes).mp total
  apply Finset.card_lt_card
  rw [Finset.ssubset_iff_of_subset]
  · refine ⟨⟨bits, complete⟩, ?_, ?_⟩
    · exact Finset.mem_filter.mpr ⟨Finset.mem_univ _, less⟩
    · intro member
      exact Nat.lt_irrefl _ (Finset.mem_filter.mp member).2
  · intro other member
    have above := (Finset.mem_filter.mp member).2
    exact Finset.mem_filter.mpr ⟨Finset.mem_univ _, Nat.lt_trans less above⟩

theorem scoreUnder_small (fit : f.Searchable) (values : Array (Option Bool)) :
    f.scoreUnder values < 9007199254740992 :=
  Nat.lt_of_lt_of_le (fit.toValid.scoreUnder_lt values) fit.toValid.bounded

theorem isPeak_of_stays (fit : f.Searchable) (describes : l.Describes f) {bits : List Bool}
    (complete : bits.length = f.nVars)
    (none : ∀ var, 0 < var → var ≤ f.nVars →
      f.scoreAfter (valuesOf f.nVars bits) var ≤ f.scoreUnder (valuesOf f.nVars bits)) :
    IsPeak f l (recount f (valuesOf f.nVars bits)) := by
  intro var first last
  refine ⟨_, _, flip_total fit describes.tables complete first last,
    Landscape.score_recount fit.toValid describes _, ?_⟩
  have limit := none var first last
  rw [Formula.scoreAfter, modify_valuesOf complete first] at limit
  exact limit

theorem greediestMove_ascends (fit : f.Searchable) (describes : l.Describes f) {s : State}
    (total : s.IsTotal f l.index) :
    Draw.Always (Ascends (fun t => f.scoreUnder t.values) (IsPeak f l) s)
      (l.greediestMove s : Draw σ (Proposal State)) := by
  obtain ⟨bits, complete, rfl⟩ := (isTotal_iff fit describes).mp total
  refine (greediestMove_gain fit describes complete).mono (fun _ never => never) ?_
  intro q proposed
  cases proposed with
  | flips var best flipped gain goes =>
    have reached := flip_total fit describes.tables complete best.first best.last
    rw [flipped, Except.ok.injEq] at reached
    refine .rises goes ?_
    rw [reached]
    change _ < f.scoreAfter (valuesOf f.nVars bits) var at gain
    rw [Formula.scoreAfter, modify_valuesOf complete best.first] at gain
    exact gain
  | stays none equal => exact .rests (isPeak_of_stays fit describes complete none) equal

theorem problem_climbs (fit : f.Searchable) (describes : l.Describes f) {plan : Plan}
    (greediest : plan.move = .greediest) :
    (plan.problem l : Problem σ State).Climbs (·.IsTotal f l.index) (fun s => f.scoreUnder s.values)
      (fun s => (higher f s).card) (IsPeak f l) where
  sound := problem_sound fit describes plan
  evaluate s total := by
    obtain ⟨bits, complete, rfl⟩ := (isTotal_iff fit describes).mp total
    change l.evaluate _ = _
    rw [Landscape.evaluate, Landscape.score_recount fit.toValid describes]
    rfl
  exact s _ := scoreUnder_small fit s.values
  ascends s total := by
    change Draw.Always _ (plan.move.propose l s)
    rw [greediest]
    exact greediestMove_ascends fit describes total
  less s t _ total less := card_higher_lt_of_lt fit describes total less

structure ClimbsToPeak (f : Formula) (l : Landscape) (h : Passage State) (r : Restart) : Prop where
  steps : r.steps = .ofNat h.turns.length
  turns_le : h.turns.length ≤ 2 ^ f.nVars
  steps_le : r.steps.toNat ≤ 2 ^ f.nVars
  scored : ∀ v ∈ h.currents, l.score v.state = .ok (f.scoreUnder v.state.values) ∧
    v.score = (f.scoreUnder v.state.values).toUInt64.toFloat
  rises : ∀ k t, h.turns[k]? = some t → t.proposal.stop = false →
    h.RisesAt (fun s => f.scoreUnder s.values) k
  final : h.currents.getLast?.map (·.score) = some r.finalScore
  best : r.finalScore = r.bestScore
  signal : r.stopReason = .signal → ∃ v, h.currents.getLast? = some v ∧ IsPeak f l v.state

theorem climbsToPeak (fit : f.Searchable) (describes : l.Describes f) {plan : Plan}
    (greediest : plan.move = .greediest) {limits : Limits} {h : Passage State} {r : Restart}
    {before after : σ} (made : Made (plan.problem l) before h after) (tells : r.TellsOf limits h) :
    ClimbsToPeak f l h r := by
  have climbed := made.climbs (problem_climbs fit describes greediest)
  have record := climbed.record tells
  have start := climbed.stands h.start List.mem_cons_self
  have few := Nat.le_trans record.turns_le (card_higher_lt fit describes start.held)
  refine ⟨record.steps, few, ?_, ?_, climbed.rises, record.final, record.best, record.signal⟩
  · rw [record.steps, UInt64.toNat_ofNat']
    exact Nat.le_trans (Nat.mod_le _ _) few
  · intro v current
    obtain ⟨held, scored⟩ := climbed.stands v current
    obtain ⟨bits, complete, equal⟩ := (isTotal_iff fit describes).mp held
    refine ⟨?_, scored⟩
    rw [equal]
    exact Landscape.score_recount fit.toValid describes _

-- Whatever the start rule, the source and the limits are. The only other end of a run is that there is no
-- room for its window. Draws are taken to return: none of them refuses the words of the source for ever.
theorem greediest_restarts_climb_to_peaks {nVars : Nat} {weights : List Nat} {clauses : List (List Literal)}
    {f : Formula} (built : Formula.build nVars weights (clauses.map Clause.ofLiterals) = .ok f)
    (short : ∀ c ∈ f.clauses, c.size < word32) (plan : Plan) (greediest : plan.move = .greediest)
    (limits : Limits) (σ : Type) [WordSource σ] :
    ∃ index l, Occurrences.ofFormula f = .ok index ∧ Landscape.ofFormula f index = .ok l ∧
      l.index = index ∧ ∀ (fuel : Nat) (source : σ), 2 ^ f.nVars ≤ fuel →
        (run (plan.problem l) limits fuel source = .error .capacity ∧
          tableLimit ≤ 8 * limits.windowSize) ∨
        ∃ o rest history, run (plan.problem l) limits fuel source = .ok (o, rest) ∧
          o.restarts.size = limits.restarts ∧ Happened (plan.problem l) source history rest ∧
          List.Forall₂ (ClimbsToPeak f l) history o.restarts.toList := by
  have fit : f.Searchable := ⟨Formula.valid_of_build built, short⟩
  obtain ⟨index, made, tables⟩ := Occurrences.ofFormula_tables fit.toValid
  obtain ⟨l, prepared, same, describes⟩ := Landscape.ofFormula_describes fit.toValid tables
  refine ⟨index, l, made, prepared, same, ?_⟩
  intro fuel source enough
  have climbs := problem_climbs (σ := σ) fit describes greediest
  have bound (s : State) (total : s.IsTotal f l.index) : (higher f s).card < fuel :=
    Nat.lt_of_lt_of_le (card_higher_lt fit describes total) enough
  rcases run_climbs limits climbs bound source with large | ⟨o, rest, ran⟩
  · exact .inl large
  · obtain ⟨history, counted, happened, tells⟩ := run_history ran
    refine .inr ⟨o, rest, history, ran, ?_, happened, ?_⟩
    · rw [tells.size_restarts, counted]
    · apply tells.records_made happened
      intro h r before after went told
      exact climbsToPeak fit describes greediest went told

-- Without a limit of steps and with a threshold that no change is below, only the rule itself ends a restart.
theorem greediest_restarts_climb_to_peaks_unlimited :
    let clauses : List (List Literal) := [[.positive 1, .positive 2], [.negative 1, .negative 2], []]
    let f := Formula.ofParts 2 [3, 1] (clauses.map Clause.mk)
    let plan : Plan := ⟨.random, .greediest, ⟨0.99, 0.0⟩, 0.5, 10⟩
    let limits : Limits := ⟨100, 3, 0.0, none⟩
    let source := Scripted.ofWords [5]
    Formula.build 2 [3, 1] (clauses.map Clause.ofLiterals) = .ok f ∧
      ∃ index l, Occurrences.ofFormula f = .ok index ∧ Landscape.ofFormula f index = .ok l ∧
        ∃ o rest history, run (plan.problem l) limits 4 source = .ok (o, rest) ∧
          o.restarts.size = 3 ∧ Happened (plan.problem l) source history rest ∧
          List.Forall₂ (ClimbsToPeak f l) history o.restarts.toList := by
  intro clauses f plan limits source
  have built : Formula.build 2 [3, 1] (clauses.map Clause.ofLiterals) = .ok f := rfl
  have short : ∀ c ∈ f.clauses, c.size < word32 := by decide
  obtain ⟨index, l, made, prepared, _, climb⟩ :=
    greediest_restarts_climb_to_peaks built short plan rfl limits Scripted
  rcases climb 4 source (Nat.le_refl 4) with ⟨_, large⟩ | finished
  · exact absurd large (by decide)
  · exact ⟨built, index, l, made, prepared, finished⟩

end WeightedCnf.LocalSearch
