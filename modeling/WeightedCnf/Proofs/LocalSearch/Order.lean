import WeightedCnf.Proofs.LocalSearch.Solver

namespace WeightedCnf

open BranchBound State

theorem digits_lt_iff {base m n x y : Nat} (left : x < base) (right : y < base) :
    base * m + x < base * n + y ↔ Prod.Lex (· < ·) (· < ·) (m, x) (n, y) := by
  rw [Prod.lex_def]
  rcases Nat.lt_trichotomy m n with less | equal | more
  · have step := Nat.mul_le_mul_left base (Nat.succ_le_of_lt less)
    rw [Nat.mul_succ] at step
    exact iff_of_true (by omega) (.inl less)
  · subst equal
    simp
  · have step := Nat.mul_le_mul_left base (Nat.succ_le_of_lt more)
    rw [Nat.mul_succ] at step
    refine iff_of_false (by omega) ?_
    rintro (less | ⟨equal, _⟩)
    · exact Nat.lt_asymm less more
    · exact Nat.ne_of_gt more equal

variable {f : Formula} {bits : List Bool}

theorem scoreUnder_lt_iff (valid : f.Valid) (values other : Array (Option Bool)) :
    f.scoreUnder values < f.scoreUnder other ↔
      Prod.Lex (· < ·) (· < ·) (f.clauses.countP (Clause.isTrue values), f.weightUnder values)
        (f.clauses.countP (Clause.isTrue other), f.weightUnder other) :=
  digits_lt_iff (Nat.lt_succ_of_le (valid.weightUnder_le values))
    (Nat.lt_succ_of_le (valid.weightUnder_le other))

namespace LocalSearch

-- The score of the exact answer is reached, and only heaviest models reach it.
theorem highest_iff_heaviest (valid : f.Valid) (complete : bits.length = f.nVars)
    (satisfiable : ∃ model, model.length = f.nVars ∧ IsModel f model) :
    (∀ other : List Bool, other.length = f.nVars →
        f.scoreUnder (valuesOf f.nVars other) ≤ f.scoreUnder (valuesOf f.nVars bits)) ↔
      f.IsHeaviestModel ⟨bits.toArray⟩ := by
  cases found : (walkAll f).incumbent with
  | none => exact absurd satisfiable ((walkAll_eq_none_iff valid).mp found)
  | some record =>
    obtain ⟨best, noted, covers, model, _⟩ := walkAll_eq_some valid found
    have top : f.scoreUnder (valuesOf f.nVars best) =
        (total f.weights.toList + 1) * f.numClauses + record.weight := by
      rw [scoreUnder_model model, noted]
      rfl
    rw [← (scoreUnder_le_optimum valid complete found).2]
    constructor
    · intro highest
      have reached := highest best covers
      have limit := (scoreUnder_le_optimum valid complete found).1
      omega
    · intro equal other total
      rw [equal]
      exact (scoreUnder_le_optimum valid total found).1

namespace Landscape
variable {l : Landscape}

def IsHighest (f : Formula) (l : Landscape) (s : State) : Prop :=
  ∃ score, l.score s = .ok score ∧ ∀ t, Reachable f l.index t → IsFull f t →
    ∃ other, l.score t = .ok other ∧ other ≤ score

theorem isHighest_recount_iff (fit : f.Searchable) (describes : l.Describes f) :
    l.IsHighest f (recount f (valuesOf f.nVars bits)) ↔
      ∀ other : List Bool, other.length = f.nVars →
        f.scoreUnder (valuesOf f.nVars other) ≤ f.scoreUnder (valuesOf f.nVars bits) := by
  have scored := score_recount fit.toValid describes
  constructor
  · rintro ⟨score, equal, highest⟩ other complete
    obtain ⟨reachable, full⟩ := (full_reachable_iff fit describes.tables).mpr ⟨other, complete, rfl⟩
    obtain ⟨less, same, below⟩ := highest _ reachable full
    rw [scored, Except.ok.injEq] at equal same
    rw [equal, same]
    exact below
  · intro highest
    refine ⟨_, scored _, ?_⟩
    intro t reachable full
    obtain ⟨other, complete, rfl⟩ := (full_reachable_iff fit describes.tables).mp ⟨reachable, full⟩
    exact ⟨_, scored _, highest other complete⟩

theorem isHighest_iff_heaviest (fit : f.Searchable) (describes : l.Describes f) {s : State}
    (satisfiable : ∃ a : Assignment, a.size = f.nVars ∧ f.isSatisfiedBy a = .ok true)
    (reachable : Reachable f l.index s) (full : IsFull f s) :
    l.IsHighest f s ↔ f.IsHeaviestModel s.toAssignment := by
  obtain ⟨bits, complete, rfl⟩ := (full_reachable_iff fit describes.tables).mp ⟨reachable, full⟩
  rw [toAssignment_full complete, isHighest_recount_iff fit describes]
  exact highest_iff_heaviest fit.toValid complete ((exists_satisfying_iff fit.toValid).mp satisfiable)

end Landscape

theorem scoreBound_of_build {nVars : Nat} {weights : List Nat} {clauses : List Clause}
    (built : Formula.build nVars weights clauses = .ok f) :
    Formula.scoreBound weights f.numClauses =
      some ((total f.weights.toList + 1) * (f.numClauses + 1)) := by
  obtain ⟨_, _, bound, rfl⟩ := Formula.build_eq_ok_iff.mp built
  have sum : total (Formula.ofParts nVars weights clauses).weights.toList = total weights :=
    Nat.zero_add _
  rw [sum]
  exact Formula.scoreBound_eq_some_iff.mpr ⟨bound, rfl⟩

-- No score leaves its word or reaches the bound with which the formula was admitted. Of two states that
-- histories reach, whatever they leave open, the one with fewer satisfied clauses scores less, and among
-- equals the lighter one. Of the full states exactly the heaviest models score highest, if there is one.
theorem score_ranks_clauses_before_weight {nVars : Nat} {weights : List Nat}
    {clauses : List (List Literal)}
    (built : Formula.build nVars weights (clauses.map Clause.ofLiterals) = .ok f)
    (short : ∀ c ∈ f.clauses, c.size < word32) :
    ∃ index l sum bound, Occurrences.ofFormula f = .ok index ∧ Landscape.ofFormula f index = .ok l ∧
      l.index = index ∧ f.totalWeight = .ok sum ∧ bound = (sum + 1) * (f.numClauses + 1) ∧
      Formula.scoreBound weights f.numClauses = some bound ∧ bound ≤ Nat.pow 2 53 ∧
      (∀ h k : History, h.Legal f.nVars → k.Legal f.nVars →
        ∃ s t a b, h.run index = .ok s ∧ k.run index = .ok t ∧ l.score s = .ok a ∧ l.score t = .ok b ∧
          a < bound ∧
          (a < b ↔ Prod.Lex (· < ·) (· < ·) (s.tallies.satisfied, s.trueWeight)
            (t.tallies.satisfied, t.trueWeight))) ∧
      ((∃ a : Assignment, a.size = f.nVars ∧ f.isSatisfiedBy a = .ok true) →
        ∀ s, Reachable f index s → IsFull f s →
          (l.IsHighest f s ↔ f.IsHeaviestModel s.toAssignment)) := by
  have fit : f.Searchable := ⟨Formula.valid_of_build built, short⟩
  have valid := fit.toValid
  obtain ⟨index, made, tables⟩ := Occurrences.ofFormula_tables valid
  obtain ⟨l, prepared, rfl, describes⟩ := Landscape.ofFormula_describes valid tables
  refine ⟨_, l, _, _, made, prepared, rfl, totalWeight_eq valid, rfl, scoreBound_of_build built,
    valid.bounded, ?_, ?_⟩
  · intro h k legal other
    exact ⟨_, _, _, _, History.run_recount fit tables legal, History.run_recount fit tables other,
      Landscape.score_recount valid describes _, Landscape.score_recount valid describes _,
      valid.scoreUnder_lt _, scoreUnder_lt_iff valid _ _⟩
  · intro satisfiable s reachable full
    exact Landscape.isHighest_iff_heaviest fit describes satisfiable reachable full

-- A formula at the limit: its bound is 2^53, and its model scores one less.
theorem score_ranks_clauses_before_weight_limit :
    let clauses : List (List Literal) := [[.positive 1]]
    let f := Formula.ofParts 1 [4503599627370495] (clauses.map Clause.mk)
    Formula.build 1 [4503599627370495] (clauses.map Clause.ofLiterals) = .ok f ∧
      f.isSatisfiedBy ⟨#[true]⟩ = .ok true ∧
      f.scoreUnder (valuesOf 1 [true]) = 9007199254740991 ∧
      ∃ index l sum bound, Occurrences.ofFormula f = .ok index ∧ Landscape.ofFormula f index = .ok l ∧
        l.index = index ∧ f.totalWeight = .ok sum ∧ bound = (sum + 1) * (f.numClauses + 1) ∧
        Formula.scoreBound [4503599627370495] f.numClauses = some bound ∧ bound ≤ Nat.pow 2 53 ∧
        (∀ h k : History, h.Legal f.nVars → k.Legal f.nVars →
          ∃ s t a b, h.run index = .ok s ∧ k.run index = .ok t ∧ l.score s = .ok a ∧
            l.score t = .ok b ∧ a < bound ∧
            (a < b ↔ Prod.Lex (· < ·) (· < ·) (s.tallies.satisfied, s.trueWeight)
              (t.tallies.satisfied, t.trueWeight))) ∧
        ((∃ a : Assignment, a.size = f.nVars ∧ f.isSatisfiedBy a = .ok true) →
          ∀ s, Reachable f index s → IsFull f s →
            (l.IsHighest f s ↔ f.IsHeaviestModel s.toAssignment)) := by
  intro clauses f
  have built : Formula.build 1 [4503599627370495] (clauses.map Clause.ofLiterals) = .ok f :=
    Formula.build_eq_ok_iff.mpr ⟨rfl, by decide, by decide, rfl⟩
  have short : ∀ c ∈ f.clauses, c.size < word32 := by decide
  exact ⟨built, rfl, by decide, score_ranks_clauses_before_weight built short⟩

end LocalSearch

end WeightedCnf
