import WeightedCnf.LocalSearch.Temperature
import WeightedCnf.Random.Scripted
import WeightedCnf.Proofs.Annealing.Run
import WeightedCnf.Proofs.LocalSearch.Repair

namespace WeightedCnf

open BranchBound State

-- All variables have a value, and making the state anew from its values gives it back.
def State.IsTotal (f : Formula) (index : Occurrences) (s : State) : Prop :=
  ∃ bits : List Bool, bits.length = f.nVars ∧ s.values = (none :: bits.map some).toArray ∧
    ofValues index bits = .ok s

namespace LocalSearch
open Annealing

def Neighbours (f : Formula) (s : State) (q : Proposal State) : Prop :=
  (∃ var, 0 < var ∧ var ≤ f.nVars ∧ q.state.values = s.values.modify var (·.map not)) ∨
    q.state = s ∧ q.stop = true

variable {σ : Type} [WordSource σ] {f : Formula} {l : Landscape} {bits : List Bool}

theorem isTotal_iff (fit : f.Searchable) (describes : l.Describes f) {s : State} :
    s.IsTotal f l.index ↔
      ∃ bits : List Bool, bits.length = f.nVars ∧ s = recount f (valuesOf f.nVars bits) := by
  constructor
  · rintro ⟨bits, complete, _, made⟩
    rw [ofValues_eq_recount fit describes.tables complete] at made
    exact ⟨bits, complete, (Except.ok.inj made).symm⟩
  · rintro ⟨bits, complete, rfl⟩
    exact ⟨bits, complete, valuesOf_full complete, ofValues_eq_recount fit describes.tables complete⟩

section Starts

theorem majority_always (describes : l.Describes f) {var : Nat} (last : var ≤ f.nVars) :
    Draw.Always (fun _ => True) (StartRule.majority l.index var : Draw σ Bool) := by
  refine Draw.ends_bind (Draw.ends_lift (describes.tables.listed ⟨var, false⟩ last) rfl) fun _ _ => ?_
  refine Draw.ends_bind (Draw.ends_lift (describes.tables.listed ⟨var, true⟩ last) rfl) fun _ _ => ?_
  dsimp only
  split
  · exact Draw.ends_pure trivial
  · split
    · exact Draw.ends_pure trivial
    · exact Draw.bool_always

theorem values_always (describes : l.Describes f) (rule : StartRule) :
    Draw.Always (·.length = f.nVars) (rule.values l.index : Draw σ (List Bool)) := by
  have count := describes.tables.nVars_eq
  cases rule with
  | allFalse => exact Draw.ends_pure (by simp [count])
  | allTrue => exact Draw.ends_pure (by simp [count])
  | random =>
    refine (Draw.ends_mapM fun _ _ => Draw.bool_always).mono (fun _ never => never) ?_
    rintro values ⟨equal, _⟩
    simpa [count] using equal
  | greedy =>
    refine (Draw.ends_mapM fun var member => majority_always describes ?_).mono (fun _ never => never) ?_
    · have := List.mem_range'_1.mp member
      omega
    · rintro values ⟨equal, _⟩
      simpa [count] using equal

theorem start_always (fit : f.Searchable) (describes : l.Describes f) (rule : StartRule) :
    Draw.Always (·.IsTotal f l.index) (rule.state l.index : Draw σ State) := by
  refine Draw.ends_bind (values_always describes rule) fun values complete => ?_
  refine Draw.ends_lift (ofValues_eq_recount fit describes.tables complete) ?_
  exact (isTotal_iff fit describes).mpr ⟨values, complete, rfl⟩

end Starts

section Moves

def Proposes (f : Formula) (l : Landscape) (bits : List Bool) (q : Proposal State) : Prop :=
  q.state.IsTotal f l.index ∧ Neighbours f (recount f (valuesOf f.nVars bits)) q

variable (fit : f.Searchable) (describes : l.Describes f) (complete : bits.length = f.nVars)
include fit describes complete

theorem stay_proposes : Proposes f l bits ⟨recount f (valuesOf f.nVars bits), true⟩ :=
  ⟨(isTotal_iff fit describes).mpr ⟨bits, complete, rfl⟩, .inr ⟨rfl, rfl⟩⟩

theorem flip_proposes {var : Nat} (first : 0 < var) (last : var ≤ f.nVars) {q : Proposal State}
    (flipped : (recount f (valuesOf f.nVars bits)).flip l.index var = .ok q.state) :
    Proposes f l bits q := by
  have reached := flip_total fit describes.tables complete first last
  rw [flipped, Except.ok.injEq] at reached
  refine ⟨(isTotal_iff fit describes).mpr ⟨_, by rw [length_turned, complete], reached⟩, ?_⟩
  refine .inl ⟨var, first, last, ?_⟩
  rw [reached]
  exact (modify_valuesOf complete first).symm

theorem randomMove_always :
    Draw.Always (Proposes f l bits)
      (l.randomMove (recount f (valuesOf f.nVars bits)) : Draw σ (Proposal State)) := by
  unfold Landscape.randomMove
  rw [nVars_recount complete]
  split
  · exact Draw.ends_pure (stay_proposes fit describes complete)
  · rename_i nonzero
    refine flip_always fit describes complete (Draw.upto_always (Nat.pos_of_ne_zero nonzero)) false
      (fun _ inside => inside) ?_
    intro var t inside flipped
    exact flip_proposes fit describes complete inside.1 inside.2 flipped

theorem greedyMove_always :
    Draw.Always (Proposes f l bits)
      (l.greedyMove (recount f (valuesOf f.nVars bits)) : Draw σ (Proposal State)) := by
  refine (greedyMove_best fit describes complete).mono (fun _ never => never) ?_
  intro q proposed
  cases proposed with
  | stays none equal => exact equal ▸ stay_proposes fit describes complete
  | flips var best flipped stop => exact flip_proposes fit describes complete best.first best.last flipped

theorem greediestMove_always :
    Draw.Always (Proposes f l bits)
      (l.greediestMove (recount f (valuesOf f.nVars bits)) : Draw σ (Proposal State)) := by
  refine (greediestMove_gain fit describes complete).mono (fun _ never => never) ?_
  intro q proposed
  cases proposed with
  | stays none equal => exact equal ▸ stay_proposes fit describes complete
  | flips var best flipped => exact flip_proposes fit describes complete best.first best.last flipped

theorem walksatMove_always :
    Draw.Always (Proposes f l bits)
      (l.walksatMove (recount f (valuesOf f.nVars bits)) : Draw σ (Proposal State)) := by
  intro source
  by_cases model : IsModel f bits
  · rw [walksatMove_model model]
    exact greedyMove_always fit describes complete source
  · obtain ⟨position, c, between, _, found, _, repaired⟩ :=
      walksatMove_repairs fit describes complete model source
    rcases repaired with ⟨_, same⟩ | ⟨heads, later, var, q, rest, _, moved, mends⟩
    · rw [same]
      exact greedyMove_always fit describes complete between
    · rw [moved]
      obtain ⟨literal, occurs, rfl⟩ := mends.occurs
      obtain ⟨first, last⟩ := fit.in_range c (List.mem_of_getElem? found) literal occurs
      exact flip_proposes fit describes complete first last mends.flipped

theorem propose_always (rule : MoveRule) :
    Draw.Always (Proposes f l bits)
      (rule.propose l (recount f (valuesOf f.nVars bits)) : Draw σ (Proposal State)) := by
  cases rule with
  | random => exact randomMove_always fit describes complete
  | greedy => exact greedyMove_always fit describes complete
  | greediest => exact greediestMove_always fit describes complete
  | walksat => exact walksatMove_always fit describes complete

end Moves

theorem propose_total (fit : f.Searchable) (describes : l.Describes f) (rule : MoveRule) {s : State}
    (total : s.IsTotal f l.index) :
    Draw.Always (fun q => q.state.IsTotal f l.index ∧ Neighbours f s q)
      (rule.propose l s : Draw σ (Proposal State)) := by
  obtain ⟨bits, complete, rfl⟩ := (isTotal_iff fit describes).mp total
  exact propose_always fit describes complete rule

theorem evaluate_total (fit : f.Searchable) (describes : l.Describes f) {s : State}
    (total : s.IsTotal f l.index) :
    ∃ score, l.evaluate s = .ok score ∧ (Best.nothing : Best State).score < score := by
  obtain ⟨bits, complete, rfl⟩ := (isTotal_iff fit describes).mp total
  exact Landscape.evaluate_recount fit.toValid describes _

theorem sampleChange_eq (fit : f.Searchable) (describes : l.Describes f) (source : σ) :
    ∃ s between q rest before after, StartRule.random.state l.index source = .ok (s, between) ∧
      s.IsTotal f l.index ∧ l.randomMove s between = .ok (q, rest) ∧ q.state.IsTotal f l.index ∧
      Neighbours f s q ∧ l.evaluate s = .ok before ∧ l.evaluate q.state = .ok after ∧
      l.sampleChange source = .ok ((after - before).abs, rest) := by
  obtain ⟨s, between, started, total⟩ := (start_always fit describes .random).eq_ok source
  obtain ⟨q, rest, moved, held, near⟩ := (propose_total fit describes .random total).eq_ok between
  obtain ⟨before, scored, _⟩ := evaluate_total fit describes total
  obtain ⟨after, rescored, _⟩ := evaluate_total fit describes held
  refine ⟨s, between, q, rest, before, after, started, total, moved, held, near, scored, rescored, ?_⟩
  change l.randomMove s between = .ok (q, rest) at moved
  rw [Landscape.sampleChange, Draw.bind_of_eq_ok started, Draw.bind_of_eq_ok moved,
    Draw.bind_of_eq_ok (Draw.lift_of_eq_ok rescored rest),
    Draw.bind_of_eq_ok (Draw.lift_of_eq_ok scored rest)]
  rfl

theorem sampleChanges_always (fit : f.Searchable) (describes : l.Describes f) (count : Nat) (sum : Float) :
    Draw.Always (fun _ => True) (l.sampleChanges count sum : Draw σ Float) := by
  induction count generalizing sum with
  | zero => exact Draw.ends_pure trivial
  | succ count ih =>
    have sampled : Draw.Always (fun _ => True) (l.sampleChange : Draw σ Float) := by
      intro source
      obtain ⟨_, _, _, _, _, _, _, _, _, _, _, _, _, equal⟩ := sampleChange_eq fit describes source
      rw [equal]
      trivial
    exact Draw.ends_bind sampled fun change _ => ih (sum + change)

theorem startTemperature_always (fit : f.Searchable) (describes : l.Describes f) (plan : Plan) :
    Draw.Always (fun _ => True) (plan.startTemperature l : Draw σ Float) :=
  Draw.ends_bind (sampleChanges_always fit describes plan.samples 0.0) fun _ _ => Draw.ends_pure trivial

theorem problem_sound (fit : f.Searchable) (describes : l.Describes f) (plan : Plan) :
    (plan.problem l : Problem σ State).Sound (·.IsTotal f l.index) where
  start := start_always fit describes plan.start
  evaluate _ total := evaluate_total fit describes total
  propose _ total := (propose_total fit describes plan.move total).mono (fun _ never => never)
    fun _ held => held.1
  startTemperature := startTemperature_always fit describes plan

-- The states of every run: those in which a restart starts, those that are proposed, those that it walks
-- through, and those that are sampled for its first temperature. No step gives up, and a run that does
-- gives up between its steps.
structure StaysTotal (σ : Type) [WordSource σ] (f : Formula) (l : Landscape) (plan : Plan)
    (limits : Limits) : Prop where
  starts : ∀ source : σ, ∃ s rest, plan.start.state l.index source = .ok (s, rest) ∧
    s.IsTotal f l.index
  proposals : ∀ (s : State) (source : σ), s.IsTotal f l.index →
    ∃ q rest, plan.move.propose l s source = .ok (q, rest) ∧ q.state.IsTotal f l.index ∧
      Neighbours f s q
  moments : ∀ (w : Walk State) (source : σ), Moment (plan.problem l) limits w source →
    w.current.IsTotal f l.index ∧
      ∃ next reason rest, w.step (plan.problem l) limits.threshold source = .ok ((next, reason), rest)
  samples : ∀ source : σ, ∃ s between q rest before after,
    StartRule.random.state l.index source = .ok (s, between) ∧ s.IsTotal f l.index ∧
      l.randomMove s between = .ok (q, rest) ∧ q.state.IsTotal f l.index ∧ Neighbours f s q ∧
      l.evaluate s = .ok before ∧ l.evaluate q.state = .ok after ∧
      l.sampleChange source = .ok ((after - before).abs, rest)
  temperatures : ∀ source : σ, ∃ temperature rest,
    plan.startTemperature l source = .ok (temperature, rest)
  finished : ∀ (fuel : Nat) (source rest : σ) (final : Outcome State), 0 < limits.restarts →
    run (plan.problem l) limits fuel source = .ok (final, rest) →
      ∃ last, Moment (plan.problem l) limits last rest ∧ final.best = last.best
  failed : ∀ (fuel : Nat) (source : σ) (cause : Fault),
    run (plan.problem l) limits fuel source = .error cause →
      cause = .capacity ∧ tableLimit ≤ 8 * limits.windowSize ∨
        cause = .outOfFuel ∧ ∀ max, limits.maxSteps = some max → fuel ≤ max.toNat

theorem stays_total (fit : f.Searchable) (describes : l.Describes f) (plan : Plan) (limits : Limits) :
    StaysTotal σ f l plan limits where
  starts := (start_always fit describes plan.start).eq_ok
  proposals _ source total := (propose_total fit describes plan.move total).eq_ok source
  moments w source moment := by
    have sound := problem_sound (σ := σ) fit describes plan
    have keeps := moment.keeps sound
    obtain ⟨⟨next, reason⟩, rest, moved, _⟩ := (step_always sound limits.threshold keeps).eq_ok source
    exact ⟨keeps.current, next, reason, rest, moved⟩
  samples := sampleChange_eq fit describes
  temperatures source := by
    obtain ⟨temperature, rest, given, _⟩ := (startTemperature_always fit describes plan).eq_ok source
    exact ⟨temperature, rest, given⟩
  finished _ _ _ _ restarted ran := run_leftBy restarted ran
  failed fuel _ _ ran := (run_ends (problem_sound fit describes plan) fuel).of_eq_error ran

-- Whatever words the source delivers, whatever the rules and the limits are.
theorem states_of_every_run_are_total {nVars : Nat} {weights : List Nat} {clauses : List (List Literal)}
    {f : Formula} (built : Formula.build nVars weights (clauses.map Clause.ofLiterals) = .ok f)
    (short : ∀ c ∈ f.clauses, c.size < word32) (plan : Plan) (limits : Limits) (σ : Type)
    [WordSource σ] :
    ∃ index l, Occurrences.ofFormula f = .ok index ∧ Landscape.ofFormula f index = .ok l ∧
      l.index = index ∧ StaysTotal σ f l plan limits := by
  have fit : f.Searchable := ⟨Formula.valid_of_build built, short⟩
  obtain ⟨index, made, tables⟩ := Occurrences.ofFormula_tables fit.toValid
  obtain ⟨l, prepared, same, describes⟩ := Landscape.ofFormula_describes fit.toValid tables
  exact ⟨index, l, made, prepared, same, stays_total fit describes plan limits⟩

-- A clause without literals can be picked for repair, and a clause with both literals of a variable.
theorem states_of_every_run_are_total_tautology :
    let clauses : List (List Literal) := [[.positive 1, .negative 1], [.negative 1, .positive 2], []]
    let f := Formula.ofParts 2 [3, 1] (clauses.map Clause.mk)
    let plan : Plan := ⟨.greedy, .walksat, ⟨0.99, 0.0⟩, 0.5, 10⟩
    let limits : Limits := ⟨100, 2, 1.0, none⟩
    Formula.build 2 [3, 1] (clauses.map Clause.ofLiterals) = .ok f ∧
      ∃ index l, Occurrences.ofFormula f = .ok index ∧ Landscape.ofFormula f index = .ok l ∧
        l.index = index ∧ StaysTotal Scripted f l plan limits := by
  intro clauses f plan limits
  have built : Formula.build 2 [3, 1] (clauses.map Clause.ofLiterals) = .ok f := rfl
  have short : ∀ c ∈ f.clauses, c.size < word32 := by decide
  exact ⟨built, states_of_every_run_are_total built short plan limits Scripted⟩

end LocalSearch

end WeightedCnf
