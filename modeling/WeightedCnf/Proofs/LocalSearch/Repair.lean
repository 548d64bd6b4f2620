import WeightedCnf.Proofs.BranchBound.Solve
import WeightedCnf.Proofs.LocalSearch.Climb

namespace WeightedCnf.LocalSearch

open BranchBound State Annealing

-- A flip of a variable of the clause, after which the clause is true. If the coin does not leave the
-- choice to chance and some variable of the clause gains, no variable of the clause scores more.
structure Mends (f : Formula) (l : Landscape) (s : State) (c : Clause) (heads : Bool) (var : Nat)
    (q : Proposal State) : Prop where
  occurs : ∃ literal ∈ c.literals, literal.var = var
  flipped : s.flip l.index var = .ok q.state
  values : q.state.values = s.values.modify var (·.map not)
  goes : q.stop = false
  mended : c.isSatisfiedBy q.state.toAssignment = .ok true
  best : heads = false →
    (∃ literal ∈ c.literals, f.scoreUnder s.values < f.scoreAfter s.values literal.var) →
      ∀ literal ∈ c.literals, f.scoreAfter s.values literal.var ≤ f.scoreAfter s.values var

variable {σ : Type} [WordSource σ] {f : Formula} {l : Landscape} {bits : List Bool} {c : Clause}

theorem mem_vars {c : Clause} {var : Nat} : var ∈ c.vars ↔ ∃ l ∈ c.literals, l.var = var := by
  simp [Clause.vars, List.mem_eraseDups]

theorem vars_eq_nil_iff {c : Clause} : c.vars = [] ↔ c.literals = [] := by
  simp only [List.eq_nil_iff_forall_not_mem, mem_vars]
  constructor
  · intro none literal member
    exact none literal.var ⟨literal, member, rfl⟩
  · rintro none var ⟨literal, member, _⟩
    exact none literal member

theorem vars_inside (valid : f.Valid) (member : c ∈ f.clauses) :
    ∀ var ∈ c.vars, 0 < var ∧ var ≤ f.nVars := by
  intro var listed
  obtain ⟨literal, occurs, rfl⟩ := mem_vars.mp listed
  exact valid.in_range c member literal occurs

section Truth

theorem truth?_turned (complete : bits.length = f.nVars) {literal : Literal} (first : 0 < literal.var) :
    literal.truth? (valuesOf f.nVars (turned literal.var bits)) =
      (literal.truth? (valuesOf f.nVars bits)).map not := by
  rw [← modify_valuesOf complete first]
  simp only [Literal.truth?, Array.getElem?_modify, if_true]
  cases (valuesOf f.nVars bits)[literal.var]? with
  | none => rfl
  | some value =>
    cases value with
    | none => rfl
    | some value => cases value <;> cases negated : literal.negated <;> simp [Literal.holds, negated]

-- All literals of the clause were false, so the one that is turned around becomes true.
theorem isTrue_turned (valid : f.Valid) (complete : bits.length = f.nVars) (member : c ∈ f.clauses)
    (falsified : c.isTrue (valuesOf f.nVars bits) = false) {literal : Literal}
    (occurs : literal ∈ c.literals) :
    c.isTrue (valuesOf f.nVars (turned literal.var bits)) = true := by
  have inside := valid.in_range c member literal occurs
  obtain ⟨truth, known⟩ := truth?_full complete inside
  rw [Clause.isTrue, List.any_eq_false] at falsified
  have untrue := falsified literal occurs
  rw [known] at untrue
  cases truth with
  | true => simp at untrue
  | false =>
    rw [Clause.isTrue, List.any_eq_true]
    refine ⟨literal, occurs, ?_⟩
    rw [truth?_turned complete inside.1, known]
    rfl

theorem unsatisfied_eq_nil_iff :
    (recount f (valuesOf f.nVars bits)).unsatisfied = [] ↔ IsModel f bits := by
  simp only [List.eq_nil_iff_forall_not_mem, mem_unsatisfied_recount, IsModel, List.all_eq_true]
  constructor
  · intro none c member
    obtain ⟨position, found⟩ := List.mem_iff_getElem?.mp member
    cases truth : c.isTrue (valuesOf f.nVars bits) with
    | true => rfl
    | false => exact absurd ⟨c, found, truth⟩ (none position)
  · rintro model position ⟨c, found, falsified⟩
    rw [model c (List.mem_of_getElem? found)] at falsified
    cases falsified

end Truth

def Landscape.mend (l : Landscape) (vars : List Nat) (s : State) : Draw σ (Proposal State) := do
  if ← Draw.coin then
    let var ← Draw.choose vars
    return ⟨← s.flip l.index var, false⟩
  else
    let (var, s) ← l.repairVar vars s
    return ⟨← s.flip l.index var, false⟩

section Moves
variable (fit : f.Searchable) (describes : l.Describes f) (complete : bits.length = f.nVars)
include fit describes complete

theorem repairVar_always {vars : List Nat} (nonempty : vars ≠ [])
    (inside : ∀ var ∈ vars, 0 < var ∧ var ≤ f.nVars) :
    Draw.Always
      (fun r => r.2 = recount f (valuesOf f.nVars bits) ∧ r.1 ∈ vars ∧
        ((∃ var ∈ vars, f.scoreUnder (valuesOf f.nVars bits) < f.scoreAfter (valuesOf f.nVars bits) var) →
          ∀ other ∈ vars,
            f.scoreAfter (valuesOf f.nVars bits) other ≤ f.scoreAfter (valuesOf f.nVars bits) r.1))
      (l.repairVar vars (recount f (valuesOf f.nVars bits)) : Draw σ (Nat × State)) := by
  unfold Landscape.repairVar
  rw [ranked_bind fit describes complete inside]
  cases ranked : Landscape.ranking (f.scoreAfter (valuesOf f.nVars bits)) vars with
  | none => exact absurd (Landscape.ranking_eq_none_iff.mp ranked) nonempty
  | some b =>
    have best := Landscape.isBest_of_ranking ranked
    dsimp only
    split
    · refine Draw.ends_bind (choose_best best) ?_
      rintro var ⟨member, equal⟩
      refine Draw.ends_pure ⟨rfl, member, ?_⟩
      intro _ other listed
      rw [equal]
      exact best.largest other listed
    · rename_i loss
      refine Draw.ends_bind (Draw.choose_always nonempty) fun var member => ?_
      refine Draw.ends_pure ⟨rfl, member, ?_⟩
      rintro ⟨gainer, listed, gain⟩
      have limit := best.largest gainer listed
      omega

section Clause
variable (member : c ∈ f.clauses) (falsified : c.isTrue (valuesOf f.nVars bits) = false)
include member falsified

omit [WordSource σ] in
theorem flip_mends (heads : Bool) {picked : Nat → Prop} {vars : Draw σ Nat}
    (drawn : Draw.Always picked vars) (among : ∀ var, picked var → var ∈ c.vars)
    (best : ∀ var, picked var → heads = false →
      (∃ other ∈ c.vars,
        f.scoreUnder (valuesOf f.nVars bits) < f.scoreAfter (valuesOf f.nVars bits) other) →
      ∀ other ∈ c.vars,
        f.scoreAfter (valuesOf f.nVars bits) other ≤ f.scoreAfter (valuesOf f.nVars bits) var) :
    Draw.Always (fun q => ∃ var, Mends f l (recount f (valuesOf f.nVars bits)) c heads var q) (do
      let var ← vars
      return ⟨← (recount f (valuesOf f.nVars bits)).flip l.index var, false⟩) := by
  have inside := vars_inside fit.toValid member
  refine flip_always fit describes complete drawn false (fun var held => inside var (among var held)) ?_
  intro var t held flipped
  obtain ⟨literal, occurs, rfl⟩ := mem_vars.mp (among var held)
  obtain ⟨first, last⟩ := fit.in_range c member literal occurs
  have reached := flip_total fit describes.tables complete first last
  rw [flipped, Except.ok.injEq] at reached
  have still : (turned literal.var bits).length = f.nVars := by rw [length_turned, complete]
  refine ⟨literal.var, ⟨literal, occurs, rfl⟩, flipped, ?_, rfl, ?_, ?_⟩
  · rw [reached]
    exact (modify_valuesOf complete first).symm
  · rw [reached, toAssignment_full still, Formula.clause_isSatisfiedBy_eq fit.toValid still member,
      isTrue_turned fit.toValid complete member falsified occurs]
  · rintro tails ⟨gainer, stands, gain⟩ other listed
    exact best _ held tails ⟨_, mem_vars.mpr ⟨gainer, stands, rfl⟩, gain⟩ _
      (mem_vars.mpr ⟨other, listed, rfl⟩)

theorem mend_mends (inhabited : c.vars ≠ []) (source : σ) :
    ∃ heads later var q rest, Draw.coin source = .ok (heads, later) ∧
      l.mend c.vars (recount f (valuesOf f.nVars bits)) source = .ok (q, rest) ∧
      Mends f l (recount f (valuesOf f.nVars bits)) c heads var q := by
  obtain ⟨heads, later, tossed, _⟩ := Draw.coin_always.eq_ok source
  rw [Landscape.mend, Draw.bind_of_eq_ok tossed]
  cases heads with
  | true =>
    obtain ⟨q, rest, moved, var, mends⟩ := (flip_mends fit describes complete member
      falsified true (Draw.choose_always inhabited) (fun _ listed => listed)
      (fun _ _ tails => by cases tails)).eq_ok later
    exact ⟨true, later, var, q, rest, tossed, moved, mends⟩
  | false =>
    have repaired : Draw.Always
        (fun q => ∃ var, Mends f l (recount f (valuesOf f.nVars bits)) c false var q) (do
          let (var, s) ← l.repairVar c.vars (recount f (valuesOf f.nVars bits))
          return ⟨← s.flip l.index var, false⟩ : Draw σ (Proposal State)) := by
      refine Draw.ends_bind
        (repairVar_always fit describes complete inhabited (vars_inside fit.toValid member)) ?_
      rintro ⟨var, s⟩ ⟨same, listed, best⟩
      cases same
      have fixed : Draw.Always (· = var) (pure var : Draw σ Nat) := Draw.ends_pure rfl
      exact flip_mends fit describes complete member falsified false fixed
        (fun _ equal => equal ▸ listed) (fun _ equal _ => equal ▸ best)
    obtain ⟨q, rest, moved, var, mends⟩ := repaired.eq_ok later
    exact ⟨false, later, var, q, rest, tossed, moved, mends⟩

end Clause

omit fit complete in
theorem walksatMove_drawn {source between : σ} {position : Nat}
    (drawn : Draw.choose (recount f (valuesOf f.nVars bits)).unsatisfied source = .ok (position, between))
    (unmet : (recount f (valuesOf f.nVars bits)).unsatisfied ≠ [])
    (found : f.clauses[position]? = some c) :
    l.walksatMove (recount f (valuesOf f.nVars bits)) source =
      if c.vars.isEmpty then l.greedyMove (recount f (valuesOf f.nVars bits)) between
      else l.mend c.vars (recount f (valuesOf f.nVars bits)) between := by
  have read : entry l.clauseVars position = .ok c.vars := by
    simp [entry_eq_ok_iff, describes.clauseVars, found]
  unfold Landscape.walksatMove
  rw [if_neg (by simpa using unmet), Draw.bind_of_eq_ok drawn,
    Draw.bind_of_eq_ok (Draw.lift_of_eq_ok read between)]
  split <;> rfl

omit fit describes complete in
theorem walksatMove_model (model : IsModel f bits) :
    (l.walksatMove (recount f (valuesOf f.nVars bits)) : Draw σ (Proposal State)) =
      l.greedyMove (recount f (valuesOf f.nVars bits)) := by
  unfold Landscape.walksatMove
  rw [unsatisfied_eq_nil_iff.mpr model]
  rfl

theorem walksatMove_repairs (falsified : ¬ IsModel f bits) (source : σ) :
    ∃ position c between,
      Draw.choose (recount f (valuesOf f.nVars bits)).unsatisfied source = .ok (position, between) ∧
      f.clauses[position]? = some c ∧ c.isTrue (valuesOf f.nVars bits) = false ∧
      (c.literals = [] ∧ l.walksatMove (recount f (valuesOf f.nVars bits)) source =
          l.greedyMove (recount f (valuesOf f.nVars bits)) between ∨
        ∃ heads later var q rest, Draw.coin between = .ok (heads, later) ∧
          l.walksatMove (recount f (valuesOf f.nVars bits)) source = .ok (q, rest) ∧
          Mends f l (recount f (valuesOf f.nVars bits)) c heads var q) := by
  have unmet := mt unsatisfied_eq_nil_iff.mp falsified
  obtain ⟨position, between, drawn, member⟩ := (Draw.choose_always unmet).eq_ok source
  obtain ⟨c, found, untrue⟩ := mem_unsatisfied_recount.mp member
  refine ⟨position, c, between, drawn, found, untrue, ?_⟩
  rw [walksatMove_drawn describes drawn unmet found]
  by_cases empty : c.vars = []
  · exact .inl ⟨vars_eq_nil_iff.mp empty, by rw [empty]; rfl⟩
  · rw [if_neg (by simpa using empty)]
    exact .inr (mend_mends fit describes complete (List.mem_of_getElem? found) untrue empty between)

end Moves

-- What the repairing rule does in a full state. A model is left to the greedy rule, with all its draws;
-- otherwise a clause is drawn that no literal makes true.
structure Landscape.Repairs (σ : Type) [WordSource σ] (f : Formula) (l : Landscape) (s : State) :
    Prop where
  satisfied : f.isSatisfiedBy s.toAssignment = .ok true →
    ∀ source : σ, l.walksatMove s source = l.greedyMove s source
  falsified : f.isSatisfiedBy s.toAssignment ≠ .ok true → ∀ source : σ, ∃ position c between,
    Draw.choose s.unsatisfied source = .ok (position, between) ∧ f.clauses[position]? = some c ∧
      c.isSatisfiedBy s.toAssignment = .ok false ∧
      (c.literals = [] ∧ l.walksatMove s source = l.greedyMove s between ∨
        ∃ heads later var q rest, Draw.coin between = .ok (heads, later) ∧
          l.walksatMove s source = .ok (q, rest) ∧ Mends f l s c heads var q)

theorem repairs_of_full (fit : f.Searchable) (describes : l.Describes f)
    (complete : bits.length = f.nVars) : l.Repairs σ f (recount f (valuesOf f.nVars bits)) := by
  have satisfied_iff : f.isSatisfiedBy (recount f (valuesOf f.nVars bits)).toAssignment = .ok true ↔
      IsModel f bits := by
    rw [toAssignment_full complete, isSatisfiedBy_eq_true_iff fit.toValid complete]
  refine ⟨?_, ?_⟩
  · intro satisfied source
    rw [walksatMove_model (satisfied_iff.mp satisfied)]
  · intro unsatisfied source
    obtain ⟨position, c, between, drawn, found, untrue, repaired⟩ :=
      walksatMove_repairs fit describes complete (mt satisfied_iff.mpr unsatisfied) source
    refine ⟨position, c, between, drawn, found, ?_, repaired⟩
    rw [toAssignment_full complete,
      Formula.clause_isSatisfiedBy_eq fit.toValid complete (List.mem_of_getElem? found), untrue]

-- From every full state that a history reaches, whatever words the source delivers.
theorem walksat_mends_drawn_clause {nVars : Nat} {weights : List Nat} {clauses : List (List Literal)}
    (built : Formula.build nVars weights (clauses.map Clause.ofLiterals) = .ok f)
    (short : ∀ c ∈ f.clauses, c.size < word32) (σ : Type) [WordSource σ] :
    ∃ index l, Occurrences.ofFormula f = .ok index ∧ Landscape.ofFormula f index = .ok l ∧
      l.index = index ∧ ∀ s, Reachable f index s → IsFull f s → l.Repairs σ f s := by
  have fit : f.Searchable := ⟨Formula.valid_of_build built, short⟩
  refine Landscape.full_states fit ?_
  intro l bits describes complete
  exact repairs_of_full fit describes complete

-- A full state falsifies two clauses, one of them without literals: the draw can go either way.
theorem walksat_mends_drawn_clause_tautology :
    let clauses : List (List Literal) := [[.positive 1, .negative 1], [.negative 1, .positive 2], []]
    let f := Formula.ofParts 2 [3, 1] (clauses.map Clause.mk)
    Formula.build 2 [3, 1] (clauses.map Clause.ofLiterals) = .ok f ∧
      (do
        let index ← Occurrences.ofFormula f
        let s ← State.ofValues index [true, false]
        return s.unsatisfied : Except Fault (List Nat)).toOption = some [1, 2] ∧
      ∃ index l, Occurrences.ofFormula f = .ok index ∧ Landscape.ofFormula f index = .ok l ∧
        l.index = index ∧ ∀ s, Reachable f index s → IsFull f s → l.Repairs Scripted f s := by
  intro clauses f
  have built : Formula.build 2 [3, 1] (clauses.map Clause.ofLiterals) = .ok f := rfl
  have short : ∀ c ∈ f.clauses, c.size < word32 := by decide
  exact ⟨built, by decide +kernel, walksat_mends_drawn_clause built short Scripted⟩

end WeightedCnf.LocalSearch
