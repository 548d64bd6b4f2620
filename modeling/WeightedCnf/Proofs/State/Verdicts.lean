import WeightedCnf.Proofs.Formula.Judgement
import WeightedCnf.Proofs.State.Reachable

namespace WeightedCnf

theorem Clause.isFalse_iff {values : Array (Option Bool)} {c : Clause} :
    c.isFalse values = true ↔
      ∀ l ∈ c.literals, ∃ value, values[l.var]? = some (some value) ∧ l.holds value = false := by
  simp only [isFalse, List.all_eq_true, beq_iff_eq, Literal.truth?, Option.map_eq_some_iff,
    Option.join_eq_some_iff]

namespace State
open BranchBound Occurrences

variable {f : Formula} {values : Array (Option Bool)}

-- A total assignment with all values of a state.
structure CompletedBy (f : Formula) (s : State) (a : Assignment) : Prop where
  covers : a.size = f.nVars
  keeps : ∀ var value, s.value var = .ok (some value) → a.value var = .ok value

theorem CompletedBy.extends {bits : List Bool} (framed : Framed f.nVars values)
    (completed : CompletedBy f (recount f values) ⟨bits.toArray⟩) :
    Extends values (valuesOf f.nVars bits) := by
  intro var value known
  have covers : bits.length = f.nVars := completed.covers
  obtain ⟨first, last⟩ := framed.inside known
  obtain ⟨kept, read, listed⟩ := Assignment.value_eq first (covers ▸ last)
  have same := completed.keeps var value (entry_eq_ok_iff.mpr known)
  rw [read, Except.ok.injEq] at same
  rw [← covers, listed, same]

theorem CompletedBy.not_satisfied (valid : f.Valid) (framed : Framed f.nVars values) {a : Assignment}
    (completed : CompletedBy f (recount f values) a) (conflict : (recount f values).hasConflict = true) :
    f.isSatisfiedBy a = .ok false := by
  obtain ⟨⟨bits⟩⟩ := a
  rw [hasConflict_recount, List.any_eq_true] at conflict
  obtain ⟨c, member, falsified⟩ := conflict
  have untrue := (completed.extends framed).not_isTrue falsified
  rw [Formula.isSatisfiedBy_eq valid completed.covers, Except.ok.injEq, List.all_eq_false]
  exact ⟨c, member, by rw [untrue]; exact Bool.false_ne_true⟩

theorem CompletedBy.satisfied (valid : f.Valid) (framed : Framed f.nVars values) {a : Assignment}
    (completed : CompletedBy f (recount f values) a)
    (settled : (recount f values).isSatisfied = true) : f.isSatisfiedBy a = .ok true := by
  obtain ⟨⟨bits⟩⟩ := a
  rw [isSatisfied_recount, List.all_eq_true] at settled
  rw [Formula.isSatisfiedBy_eq valid completed.covers, Except.ok.injEq, List.all_eq_true]
  intro c member
  exact (completed.extends framed).isTrue (settled c member)

theorem Framed.completedBy (framed : Framed f.nVars values) :
    CompletedBy f (recount f values) (recount f values).toAssignment := by
  have covers := framed.length_closed
  refine ⟨covers, ?_⟩
  intro var value known
  have found : values[var]? = some (some value) := entry_eq_ok_iff.mp known
  obtain ⟨first, last⟩ := framed.inside found
  obtain ⟨old, same, listed⟩ := framed.getElem?_closed first last
  obtain ⟨read, given, again⟩ := @Assignment.value_eq (closed values) var first (by omega)
  rw [found, Option.some.injEq] at same
  rw [covers, listed, ← same, Option.getD_some, Option.some.injEq, Option.some.injEq] at again
  rw [again]
  exact given

theorem Framed.weightOf_toAssignment (framed : Framed f.nVars values) (valid : f.Valid) :
    f.weightOf (recount f values).toAssignment = .ok (recount f values).trueWeight := by
  have trues : ∀ var ∈ f.vars, ((valuesOf f.nVars (closed values))[var]? == some (some true)) =
      (values[var]? == some (some true)) := by
    intro var member
    obtain ⟨first, last⟩ := List.mem_range'_1.mp member
    obtain ⟨old, found, listed⟩ := framed.getElem?_closed first (by omega)
    rw [found, listed]
    rcases old with _ | _ | _ <;> rfl
  have weight := Formula.weightOf_eq valid framed.length_closed
  rw [Formula.weightUnder, List.filter_congr trues] at weight
  exact weight

theorem isSatisfied_full (valid : f.Valid) {bits : List Bool} (complete : bits.length = f.nVars) :
    (recount f (valuesOf f.nVars bits)).isSatisfied =
      !(recount f (valuesOf f.nVars bits)).hasConflict := by
  rw [isSatisfied_recount, hasConflict_recount, List.not_any_eq_all_not, Bool.eq_iff_iff,
    List.all_eq_true, List.all_eq_true]
  refine forall₂_congr fun c member => ?_
  rw [isFalse_full complete (valid.in_range c member), Bool.not_not]

-- What a state tells without a look at the formula, and what is true of the formula then.
structure Verdicts (f : Formula) (s : State) : Prop where
  conflict : s.hasConflict = true ↔ ∃ c ∈ f.clauses, ∀ l ∈ c.literals,
    ∃ value, s.value l.var = .ok (some value) ∧ l.holds value = false
  hopeless : s.hasConflict = true → ∀ a, CompletedBy f s a → f.isSatisfiedBy a = .ok false
  settled : s.isSatisfied = true → ∀ a, CompletedBy f s a → f.isSatisfiedBy a = .ok true
  completed : CompletedBy f s s.toAssignment
  weighed : f.weightOf s.toAssignment = .ok s.trueWeight
  decided : IsFull f s → s.isSatisfied = (!s.hasConflict) ∧
    f.isSatisfiedBy s.toAssignment = .ok s.isSatisfied

theorem Framed.verdicts (framed : Framed f.nVars values) (valid : f.Valid) :
    Verdicts f (recount f values) where
  conflict := by
    rw [hasConflict_recount, List.any_eq_true]
    simp only [Clause.isFalse_iff, State.value, recount, entry_eq_ok_iff]
  hopeless conflict a completed := completed.not_satisfied valid framed conflict
  settled satisfied a completed := completed.satisfied valid framed satisfied
  completed := framed.completedBy
  weighed := framed.weightOf_toAssignment valid
  decided full := by
    obtain ⟨bits, complete, same⟩ := framed.eq_valuesOf fun var first last => by
      obtain ⟨value, found⟩ := full var first last
      exact ⟨value, entry_eq_ok_iff.mp found⟩
    rw [same, toAssignment_full complete]
    refine ⟨isSatisfied_full valid complete, ?_⟩
    rw [isSatisfied_recount]
    exact Formula.isSatisfiedBy_eq valid complete

-- The totals of a state decide for all total assignments with its values at once, whatever is open.
theorem verdicts_hold_of_completions {nVars : Nat} {weights : List Nat} {clauses : List (List Literal)}
    (built : Formula.build nVars weights (clauses.map Clause.ofLiterals) = .ok f)
    (short : ∀ c ∈ f.clauses, c.size < word32) :
    ∃ index, ofFormula f = .ok index ∧ ∀ h : History, h.Legal f.nVars →
      ∃ s, h.run index = .ok s ∧ Verdicts f s := by
  have fit : f.Searchable := ⟨Formula.valid_of_build built, short⟩
  obtain ⟨index, made, tables⟩ := ofFormula_tables fit.toValid
  refine ⟨index, made, ?_⟩
  intro h legal
  exact ⟨_, History.run_recount fit tables legal, (History.values_framed legal).verdicts fit.toValid⟩

-- Both histories leave a variable open. The first satisfies a clause with both literals of a variable and
-- turns a variable around on its way, the second falsifies the other clause.
theorem verdicts_hold_of_completions_open :
    let clauses : List (List Literal) :=
      [[.positive 1, .negative 1, .positive 1], [.negative 2, .positive 3]]
    let f := Formula.ofParts 3 [3, 1, 4]
      [⟨[.positive 1, .negative 1]⟩, ⟨[.negative 2, .positive 3]⟩]
    let settled : History := ⟨.blank, [.assign 2 true, .assign 1 true, .flip 2]⟩
    let stuck : History := ⟨.given [true, true, true], [.flip 3, .unassign 1]⟩
    Formula.build 3 [3, 1, 4] (clauses.map Clause.ofLiterals) = .ok f ∧
      settled.Legal f.nVars ∧ stuck.Legal f.nVars ∧
      (ofFormula f >>= settled.run).toOption.map State.isSatisfied = some true ∧
      (ofFormula f >>= stuck.run).toOption.map State.hasConflict = some true ∧
      ∃ index, ofFormula f = .ok index ∧ ∀ h : History, h.Legal f.nVars →
        ∃ s, h.run index = .ok s ∧ Verdicts f s := by
  intro clauses f settled stuck
  have built : Formula.build 3 [3, 1, 4] (clauses.map Clause.ofLiterals) = .ok f := rfl
  have short : ∀ c ∈ f.clauses, c.size < word32 := by decide
  have first : settled.Legal f.nVars := ⟨trivial, by decide⟩
  have second : stuck.Legal f.nVars := ⟨rfl, by decide⟩
  exact ⟨built, first, second, by decide +kernel, by decide +kernel,
    verdicts_hold_of_completions built short⟩

end State

end WeightedCnf
