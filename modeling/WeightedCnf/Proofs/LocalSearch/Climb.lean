import WeightedCnf.LocalSearch.Move
import WeightedCnf.Random.Scripted
import WeightedCnf.Proofs.LocalSearch.Score
import WeightedCnf.Proofs.Random.Draw

namespace WeightedCnf.LocalSearch

open BranchBound State Annealing

-- A flip that scores at least as much as every other flip.
structure BestFlip (f : Formula) (values : Array (Option Bool)) (var : Nat) : Prop where
  first : 0 < var
  last : var ≤ f.nVars
  largest : ∀ other, 0 < other → other ≤ f.nVars → f.scoreAfter values other ≤ f.scoreAfter values var

-- A best flip, with the wish to stop exactly if it is a loss. Without variables there is no flip.
inductive ProposesBest (f : Formula) (l : Landscape) (s : State) (q : Proposal State) : Prop where
  | stays (none : f.nVars = 0) (equal : q = ⟨s, true⟩)
  | flips (var : Nat) (best : BestFlip f s.values var) (flipped : s.flip l.index var = .ok q.state)
      (stop : q.stop = true ↔ f.scoreAfter s.values var < f.scoreUnder s.values)

-- A best flip if it is a gain, and nothing otherwise.
inductive ProposesGain (f : Formula) (l : Landscape) (s : State) (q : Proposal State) : Prop where
  | flips (var : Nat) (best : BestFlip f s.values var) (flipped : s.flip l.index var = .ok q.state)
      (gain : f.scoreUnder s.values < f.scoreAfter s.values var) (goes : q.stop = false)
  | stays (none : ∀ var, 0 < var → var ≤ f.nVars → f.scoreAfter s.values var ≤ f.scoreUnder s.values)
      (equal : q = ⟨s, true⟩)

variable {σ : Type} [WordSource σ] {f : Formula} {l : Landscape} {bits : List Bool}

theorem nVars_recount (complete : bits.length = f.nVars) :
    (recount f (valuesOf f.nVars bits)).nVars = f.nVars := by
  simp [State.nVars, recount, size_valuesOf (Nat.le_of_eq complete)]

theorem mem_range_iff {var : Nat} : var ∈ List.range' 1 f.nVars ↔ 0 < var ∧ var ≤ f.nVars := by
  rw [List.mem_range'_1]
  omega

theorem choose_best {score : Nat → Nat} {tried : List Nat} {b : BestFlips}
    (best : Landscape.IsBest score tried b) :
    Draw.Always (fun var => var ∈ tried ∧ score var = b.score) (Draw.choose b.vars : Draw σ Nat) :=
  (Draw.choose_always best.vars_ne_nil).mono (fun _ never => never) fun _ => best.mem_vars_iff.mp

theorem bestFlip_of_isBest {values : Array (Option Bool)} {b : BestFlips}
    (best : Landscape.IsBest (f.scoreAfter values) (List.range' 1 f.nVars) b) {var : Nat}
    (tied : var ∈ List.range' 1 f.nVars ∧ f.scoreAfter values var = b.score) :
    BestFlip f values var := by
  obtain ⟨member, equal⟩ := tied
  obtain ⟨first, last⟩ := mem_range_iff.mp member
  refine ⟨first, last, ?_⟩
  intro other positive bounded
  rw [equal]
  exact best.largest other (mem_range_iff.mpr ⟨positive, bounded⟩)

section Moves
variable (fit : f.Searchable) (describes : l.Describes f) (complete : bits.length = f.nVars)
include fit describes complete

omit [WordSource σ] in
theorem ranked_bind {candidates : List Nat} (inside : ∀ var ∈ candidates, 0 < var ∧ var ≤ f.nVars)
    (next : Nat → Option BestFlips × State → Draw σ α) :
    (do
      let current ← (l.score (recount f (valuesOf f.nVars bits)) : Except Fault Nat)
      next current (← (l.bestFlips candidates (recount f (valuesOf f.nVars bits)) : Except Fault _))) =
      next (f.scoreUnder (valuesOf f.nVars bits))
        (Landscape.ranking (f.scoreAfter (valuesOf f.nVars bits)) candidates,
          recount f (valuesOf f.nVars bits)) := by
  funext source
  rw [Draw.bind_of_eq_ok
      (Draw.lift_of_eq_ok (Landscape.score_recount fit.toValid describes _) source),
    Draw.bind_of_eq_ok
      (Draw.lift_of_eq_ok (Landscape.bestFlips_total fit describes complete inside) source)]

omit [WordSource σ] in
theorem flip_always {picked : Nat → Prop} {vars : Draw σ Nat} {results : Proposal State → Prop}
    (drawn : Draw.Always picked vars) (stop : Bool)
    (inside : ∀ var, picked var → 0 < var ∧ var ≤ f.nVars)
    (later : ∀ var t, picked var → (recount f (valuesOf f.nVars bits)).flip l.index var = .ok t →
      results ⟨t, stop⟩) :
    Draw.Always results (do
      let var ← vars
      return ⟨← (recount f (valuesOf f.nVars bits)).flip l.index var, stop⟩) := by
  refine Draw.ends_bind drawn fun var held => ?_
  obtain ⟨first, last⟩ := inside var held
  have flipped := flip_total fit describes.tables complete first last
  refine Draw.ends_bind (Draw.ends_lift flipped rfl) ?_
  rintro _ rfl
  exact Draw.ends_pure (later var _ held flipped)

theorem greedyMove_best :
    Draw.Always (ProposesBest f l (recount f (valuesOf f.nVars bits)))
      (l.greedyMove (recount f (valuesOf f.nVars bits)) : Draw σ (Proposal State)) := by
  unfold Landscape.greedyMove
  rw [nVars_recount complete, ranked_bind fit describes complete fun _ => mem_range_iff.mp]
  cases ranked : Landscape.ranking (f.scoreAfter (valuesOf f.nVars bits)) (List.range' 1 f.nVars) with
  | none =>
    have empty := Landscape.ranking_eq_none_iff.mp ranked
    exact Draw.ends_pure (.stays (by simpa using empty) rfl)
  | some b =>
    have best := Landscape.isBest_of_ranking ranked
    refine flip_always fit describes complete (choose_best best) _
      (fun var tied => mem_range_iff.mp tied.1) ?_
    intro var t tied flipped
    have flip := bestFlip_of_isBest best tied
    refine .flips var flip flipped ?_
    rw [decide_eq_true_iff, ← tied.2]
    rfl

theorem greediestMove_gain :
    Draw.Always (ProposesGain f l (recount f (valuesOf f.nVars bits)))
      (l.greediestMove (recount f (valuesOf f.nVars bits)) : Draw σ (Proposal State)) := by
  unfold Landscape.greediestMove
  rw [nVars_recount complete, ranked_bind fit describes complete fun _ => mem_range_iff.mp]
  cases ranked : Landscape.ranking (f.scoreAfter (valuesOf f.nVars bits)) (List.range' 1 f.nVars) with
  | none =>
    have empty := Landscape.ranking_eq_none_iff.mp ranked
    refine Draw.ends_pure (.stays ?_ rfl)
    intro var first last
    have member := mem_range_iff.mpr ⟨first, last⟩
    rw [empty] at member
    cases member
  | some b =>
    have best := Landscape.isBest_of_ranking ranked
    dsimp only
    split
    · rename_i gain
      refine flip_always fit describes complete (choose_best best) _
        (fun var tied => mem_range_iff.mp tied.1) ?_
      intro var t tied flipped
      have flip := bestFlip_of_isBest best tied
      rw [← tied.2] at gain
      exact .flips var flip flipped gain rfl
    · rename_i loss
      refine Draw.ends_pure (.stays ?_ rfl)
      intro var first last
      exact Nat.le_trans (best.largest var (mem_range_iff.mpr ⟨first, last⟩)) (Nat.not_lt.mp loss)

end Moves

-- The flips of a state and what the climbing rules make of them. Scores are those of the values, counted
-- anew.
structure Landscape.Climbs (σ : Type) [WordSource σ] (f : Formula) (l : Landscape) (s : State) : Prop where
  score : l.score s = .ok (f.scoreUnder s.values)
  flip : ∀ var, 0 < var → var ≤ f.nVars → ∃ t, s.flip l.index var = .ok t ∧
    t.values = s.values.modify var (·.map not) ∧ l.score t = .ok (f.scoreAfter s.values var)
  bestFlips : ∀ candidates : List Nat,
    (∀ var ∈ candidates, ∃ value, s.value var = .ok (some value)) →
      ∃ best, l.bestFlips candidates s = .ok (best, s) ∧ (best = none ↔ candidates = []) ∧
        ∀ b, best = some b → IsBest (f.scoreAfter s.values) candidates b
  greedy : ∀ source : σ, ∃ q rest, l.greedyMove s source = .ok (q, rest) ∧ ProposesBest f l s q
  greediest : ∀ source : σ, ∃ q rest, l.greediestMove s source = .ok (q, rest) ∧ ProposesGain f l s q

theorem inside_of_value (complete : bits.length = f.nVars) {var : Nat} {value : Bool}
    (found : (recount f (valuesOf f.nVars bits)).value var = .ok (some value)) :
    0 < var ∧ var ≤ f.nVars := by
  have framed := valuesOf_framed (Nat.le_of_eq complete)
  have listed : (valuesOf f.nVars bits)[var]? = some (some value) := entry_eq_ok_iff.mp found
  refine ⟨Nat.pos_of_ne_zero ?_, ?_⟩
  · intro zero
    rw [zero, framed.zero] at listed
    cases listed
  · obtain ⟨inside, _⟩ := Array.getElem?_eq_some_iff.mp listed
    rw [framed.size] at inside
    omega

theorem climbs_of_full (fit : f.Searchable) (describes : l.Describes f)
    (complete : bits.length = f.nVars) :
    l.Climbs σ f (recount f (valuesOf f.nVars bits)) where
  score := Landscape.score_recount fit.toValid describes _
  flip var first last := by
    refine ⟨_, flip_total fit describes.tables complete first last,
      (modify_valuesOf complete first).symm, ?_⟩
    rw [Landscape.score_recount fit.toValid describes, Formula.scoreAfter]
    exact congrArg (fun values => Except.ok (f.scoreUnder values)) (modify_valuesOf complete first).symm
  bestFlips candidates assigned := by
    have inside : ∀ var ∈ candidates, 0 < var ∧ var ≤ f.nVars := by
      intro var member
      obtain ⟨value, found⟩ := assigned var member
      exact inside_of_value complete found
    exact ⟨_, Landscape.bestFlips_total fit describes complete inside,
      Landscape.ranking_eq_none_iff, fun _ => Landscape.isBest_of_ranking⟩
  greedy := (greedyMove_best fit describes complete).eq_ok
  greediest := (greediestMove_gain fit describes complete).eq_ok

-- Whatever words the source delivers: trying flips leaves no trace, the greedy rule takes a flip that
-- none beats and asks to stop at a loss, and the greediest rule moves only to gain.
theorem climbing_rules_take_best_flips {nVars : Nat} {weights : List Nat}
    {clauses : List (List Literal)}
    (built : Formula.build nVars weights (clauses.map Clause.ofLiterals) = .ok f)
    (short : ∀ c ∈ f.clauses, c.size < word32) (σ : Type) [WordSource σ] :
    ∃ index l, Occurrences.ofFormula f = .ok index ∧ Landscape.ofFormula f index = .ok l ∧
      l.index = index ∧ ∀ s, Reachable f index s → IsFull f s → l.Climbs σ f s := by
  have fit : f.Searchable := ⟨Formula.valid_of_build built, short⟩
  refine Landscape.full_states fit ?_
  intro l bits describes complete
  exact climbs_of_full fit describes complete

-- Both flips of the state in which all is false are equally good; a candidate that is named twice is
-- listed twice.
theorem climbing_rules_take_best_flips_tie :
    let clauses : List (List Literal) := [[.positive 1, .positive 2], [.negative 1, .negative 2]]
    let f := Formula.ofParts 2 [3, 3] (clauses.map Clause.mk)
    Formula.build 2 [3, 3] (clauses.map Clause.ofLiterals) = .ok f ∧
      (do
        let index ← Occurrences.ofFormula f
        let l ← Landscape.ofFormula f index
        let (best, _) ← l.bestFlips [2, 1, 2] (← State.ofValues index [false, false])
        return best : Except Fault (Option BestFlips)).toOption = some (some ⟨17, [2, 1, 2]⟩) ∧
      ∃ index l, Occurrences.ofFormula f = .ok index ∧ Landscape.ofFormula f index = .ok l ∧
        l.index = index ∧ ∀ s, Reachable f index s → IsFull f s → l.Climbs Scripted f s := by
  intro clauses f
  have built : Formula.build 2 [3, 3] (clauses.map Clause.ofLiterals) = .ok f := rfl
  have short : ∀ c ∈ f.clauses, c.size < word32 := by decide
  exact ⟨built, by decide +kernel, climbing_rules_take_best_flips built short Scripted⟩

end WeightedCnf.LocalSearch
