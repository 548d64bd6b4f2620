import WeightedCnf.LocalSearch.Score
import WeightedCnf.Proofs.Annealing.Best
import WeightedCnf.Proofs.State.Reachable

namespace WeightedCnf

open BranchBound

def Formula.scoreUnder (f : Formula) (values : Array (Option Bool)) : Nat :=
  (total f.weights.toList + 1) * f.clauses.countP (Clause.isTrue values) + f.weightUnder values

def Formula.scoreAfter (f : Formula) (values : Array (Option Bool)) (var : Nat) : Nat :=
  f.scoreUnder (values.modify var (·.map not))

theorem Formula.Valid.scoreUnder_lt {f : Formula} (valid : f.Valid) (values : Array (Option Bool)) :
    f.scoreUnder values < (total f.weights.toList + 1) * (f.clauses.length + 1) := by
  have light := valid.weightUnder_le values
  have few : f.clauses.countP (Clause.isTrue values) ≤ f.clauses.length := List.countP_le_length
  have product := Nat.mul_le_mul_left (total f.weights.toList + 1) few
  rw [Nat.mul_succ, Formula.scoreUnder]
  omega

namespace State

variable {f : Formula} {bits : List Bool}

def turned (var : Nat) (bits : List Bool) : List Bool := bits.modify (var - 1) not

theorem length_turned (var : Nat) (bits : List Bool) : (turned var bits).length = bits.length :=
  List.length_modify _ _ _

theorem turned_turned (var : Nat) (bits : List Bool) : turned var (turned var bits) = bits := by
  apply List.ext_getElem?
  intro i
  simp only [turned, List.getElem?_modify]
  split <;> cases bits[i]? <;> simp

theorem modify_valuesOf {nVars var : Nat} (complete : bits.length = nVars) (first : 0 < var) :
    (valuesOf nVars bits).modify var (·.map not) = valuesOf nVars (turned var bits) := by
  rw [valuesOf_full complete, valuesOf_full (by rw [length_turned, complete])]
  apply Array.ext_getElem?
  intro i
  cases i with
  | zero =>
    have other : var ≠ 0 := by omega
    simp only [Array.getElem?_modify, other, if_false, List.getElem?_toArray, List.getElem?_cons_zero]
  | succ i =>
    have same : var = i + 1 ↔ var - 1 = i := by omega
    simp only [Array.getElem?_modify, List.getElem?_toArray, List.getElem?_cons_succ, List.getElem?_map,
      turned, List.getElem?_modify, same]
    split <;> cases bits[i]? <;> rfl

theorem flip_total {index : Occurrences} {var : Nat} (fit : f.Searchable)
    (tables : Occurrences.Tables f f.positions index) (complete : bits.length = f.nVars)
    (first : 0 < var) (last : var ≤ f.nVars) :
    (recount f (valuesOf f.nVars bits)).flip index var =
      .ok (recount f (valuesOf f.nVars (turned var bits))) := by
  obtain ⟨i, rfl⟩ : ∃ i, var = i + 1 := ⟨var - 1, by omega⟩
  have inside : i < bits.length := by omega
  have known : (valuesOf f.nVars bits)[i + 1]?.join.isSome := by
    simp [getElem?_valuesOf_decided inside, inside]
  rw [← modify_valuesOf complete first]
  exact apply_recount (c := .flip (i + 1)) fit tables ⟨first, last, known⟩

end State

namespace LocalSearch.Landscape
open State

variable {f : Formula} {l : Landscape} {bits : List Bool}

structure Describes (l : Landscape) (f : Formula) : Prop where
  tables : Occurrences.Tables f f.positions l.index
  clauseVars : l.clauseVars = (f.clauses.map Clause.vars).toArray
  clauseWeight : l.clauseWeight = total f.weights.toList + 1

theorem ofFormula_describes (valid : f.Valid) {index : Occurrences}
    (tables : Occurrences.Tables f f.positions index) :
    ∃ l, ofFormula f index = .ok l ∧ l.index = index ∧ l.Describes f := by
  have sum : f.totalWeight = .ok (total f.weights.toList) :=
    sum64_eq_ok_iff.mpr ⟨valid.total_lt, rfl⟩
  have bound := valid.bounded
  have factor : total f.weights.toList + 1 ≤ (total f.weights.toList + 1) * (f.clauses.length + 1) :=
    Nat.le_mul_of_pos_right _ (Nat.succ_pos _)
  have roomy : Formula.maxScore < word64 := by decide
  have fits : add64 (total f.weights.toList) 1 = .ok (total f.weights.toList + 1) :=
    within_eq_ok_iff.mpr ⟨by omega, rfl⟩
  refine ⟨⟨index, (f.clauses.map Clause.vars).toArray, total f.weights.toList + 1⟩, ?_, rfl,
    ⟨tables, rfl, rfl⟩⟩
  simp only [ofFormula, sum, fits, bind, Except.bind, pure, Except.pure]

theorem full_states {property : Landscape → State → Prop} (fit : f.Searchable)
    (holds : ∀ l bits, l.Describes f → bits.length = f.nVars →
      property l (recount f (valuesOf f.nVars bits))) :
    ∃ index l, Occurrences.ofFormula f = .ok index ∧ ofFormula f index = .ok l ∧ l.index = index ∧
      ∀ s, Reachable f index s → IsFull f s → property l s := by
  obtain ⟨index, made, tables⟩ := Occurrences.ofFormula_tables fit.toValid
  obtain ⟨l, prepared, same, describes⟩ := ofFormula_describes fit.toValid tables
  refine ⟨index, l, made, prepared, same, ?_⟩
  intro s reachable full
  obtain ⟨bits, complete, rfl⟩ := (full_reachable_iff fit tables).mp ⟨reachable, full⟩
  exact holds l bits describes complete

theorem score_recount (valid : f.Valid) (describes : l.Describes f) (values : Array (Option Bool)) :
    l.score (recount f values) = .ok (f.scoreUnder values) := by
  have below := valid.scoreUnder_lt values
  have bound := valid.bounded
  have roomy : Formula.maxScore < word64 := by decide
  simp only [score, recount, Tallies.recount, describes.clauseWeight, bind_eq_ok_iff, mul64, add64,
    within_eq_ok_iff]
  unfold Formula.scoreUnder at below ⊢
  exact ⟨_, ⟨by omega, rfl⟩, by omega, rfl⟩

theorem evaluate_recount (valid : f.Valid) (describes : l.Describes f) (values : Array (Option Bool)) :
    ∃ score, l.evaluate (recount f values) = .ok score ∧
      (Annealing.Best.nothing : Annealing.Best State).score < score := by
  refine ⟨_, ?_, Annealing.nothing_lt_toFloat (f.scoreUnder values).toUInt64⟩
  simp only [evaluate, score_recount valid describes, bind, Except.bind, pure, Except.pure]

theorem tryFlip_total {var : Nat} (fit : f.Searchable) (describes : l.Describes f)
    (complete : bits.length = f.nVars) (first : 0 < var) (last : var ≤ f.nVars) :
    l.tryFlip var (recount f (valuesOf f.nVars bits)) =
      .ok (f.scoreAfter (valuesOf f.nVars bits) var, recount f (valuesOf f.nVars bits)) := by
  have there := flip_total fit describes.tables complete first last
  have still : (turned var bits).length = f.nVars := by rw [length_turned, complete]
  have back := flip_total fit describes.tables still first last
  rw [turned_turned] at back
  simp only [tryFlip, there, back, score_recount fit.toValid describes, Formula.scoreAfter,
    modify_valuesOf complete first, bind, Except.bind, pure, Except.pure]

def ranking (score : Nat → Nat) (candidates : List Nat) : Option BestFlips :=
  candidates.foldl (fun best var => some (rank best (score var) var)) none

theorem bestFlips_total {candidates : List Nat} (fit : f.Searchable) (describes : l.Describes f)
    (complete : bits.length = f.nVars) (inside : ∀ var ∈ candidates, 0 < var ∧ var ≤ f.nVars) :
    l.bestFlips candidates (recount f (valuesOf f.nVars bits)) =
      .ok (ranking (f.scoreAfter (valuesOf f.nVars bits)) candidates,
        recount f (valuesOf f.nVars bits)) := by
  unfold bestFlips ranking
  generalize (none : Option BestFlips) = best
  induction candidates generalizing best with
  | nil => rfl
  | cons var candidates ih =>
    obtain ⟨first, last⟩ := inside var (by simp)
    rw [List.foldlM_cons]
    simp only [tryFlip_total fit describes complete first last, bind, Except.bind, pure, Except.pure]
    exact ih (fun other later => inside other (List.mem_cons_of_mem _ later)) _

structure IsBest (score : Nat → Nat) (tried : List Nat) (b : BestFlips) : Prop where
  attained : ∃ var ∈ tried, score var = b.score
  largest : ∀ var ∈ tried, score var ≤ b.score
  ties : b.vars = tried.filter (score · == b.score)

namespace IsBest
variable {score : Nat → Nat} {tried : List Nat} {b : BestFlips}

theorem mem_vars_iff (best : IsBest score tried b) {var : Nat} :
    var ∈ b.vars ↔ var ∈ tried ∧ score var = b.score := by
  rw [best.ties, List.mem_filter, beq_iff_eq]

theorem vars_ne_nil (best : IsBest score tried b) : b.vars ≠ [] := by
  obtain ⟨var, attained⟩ := best.attained
  exact List.ne_nil_of_mem (best.mem_vars_iff.mpr attained)

end IsBest

def Ranks (score : Nat → Nat) (tried : List Nat) : Option BestFlips → Prop
  | none => tried = []
  | some b => IsBest score tried b

-- A candidate joins the ties, or is passed over, or leaves all before it behind.
theorem rank_ranks {score : Nat → Nat} {tried : List Nat} {best : Option BestFlips}
    (ranks : Ranks score tried best) (var : Nat) :
    IsBest score (tried ++ [var]) (rank best (score var) var) := by
  cases best with
  | none =>
    have nothing : tried = [] := ranks
    subst nothing
    exact ⟨⟨var, by simp, rfl⟩, by simp [rank], by simp [rank]⟩
  | some b =>
    obtain ⟨⟨first, member, reached⟩, largest, ties⟩ := ranks
    have earlier : first ∈ tried ++ [var] := List.mem_append_left _ member
    have limits : ∀ top, (∀ other ∈ tried, score other ≤ top) → score var ≤ top →
        ∀ other ∈ tried ++ [var], score other ≤ top := by
      intro top old new other among
      rcases List.mem_append.mp among with before | here
      · exact old other before
      · rw [List.mem_singleton.mp here]
        exact new
    simp only [rank]
    split
    · rename_i equal
      exact ⟨⟨first, earlier, reached⟩, limits _ largest (Nat.le_of_eq equal),
        by simp [List.filter_append, ties, equal]⟩
    · rename_i different
      split
      · rename_i lower
        exact ⟨⟨first, earlier, reached⟩, limits _ largest (Nat.le_of_lt lower),
          by simp [List.filter_append, ties, different]⟩
      · have below : ∀ other ∈ tried, score other < score var := by
          intro other old
          have limit := largest other old
          omega
        have none : tried.filter (score · == score var) = [] := by
          rw [List.filter_eq_nil_iff]
          intro other old
          simpa using Nat.ne_of_lt (below other old)
        exact ⟨⟨var, by simp, rfl⟩,
          limits _ (fun other old => Nat.le_of_lt (below other old)) (Nat.le_refl _),
          by simp [List.filter_append, none]⟩

theorem ranking_ranks (score : Nat → Nat) (candidates : List Nat) :
    Ranks score candidates (ranking score candidates) := by
  -- The candidates that are still to come are tried after those that were.
  suffices ∀ (rest tried : List Nat) best, Ranks score tried best →
      Ranks score (tried ++ rest)
        (rest.foldl (fun best var => some (rank best (score var) var)) best) from
    this candidates [] none rfl
  intro rest
  induction rest with
  | nil =>
    intro tried best ranks
    rw [List.append_nil]
    exact ranks
  | cons var rest ih =>
    intro tried best ranks
    rw [List.append_cons]
    exact ih (tried ++ [var]) _ (rank_ranks ranks var)

theorem ranking_eq_none_iff {score : Nat → Nat} {candidates : List Nat} :
    ranking score candidates = none ↔ candidates = [] := by
  constructor
  · intro nothing
    have ranks := ranking_ranks score candidates
    rw [nothing] at ranks
    exact ranks
  · intro empty
    subst empty
    rfl

theorem isBest_of_ranking {score : Nat → Nat} {candidates : List Nat} {best : BestFlips}
    (ranked : ranking score candidates = some best) : IsBest score candidates best := by
  have ranks := ranking_ranks score candidates
  rw [ranked] at ranks
  exact ranks

end LocalSearch.Landscape

end WeightedCnf
