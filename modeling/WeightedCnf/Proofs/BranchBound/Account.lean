import WeightedCnf.Proofs.BranchBound.Trail
import WeightedCnf.Proofs.State.Reachable

namespace WeightedCnf.BranchBound
open Occurrences State

variable {f : Formula} {index : Occurrences} {decided : List Bool} {below : List Frame} {frame : Frame}
  {s next : Search Nat}

-- How many nodes a frame is about to enter: its own, or those of the branches that it has not tried.
def Stage.due : Stage → Nat
  | enter => 1
  | tryFalse => 2
  | tryTrue => 1
  | leave => 0

def due (stack : List Frame) : Nat := total (stack.map (·.stage.due))

theorem due_cons (frame : Frame) (below : List Frame) :
    due (frame :: below) = frame.stage.due + due below := rfl

section Visits
variable {N : Type} [OfNat N 1] [Add N]

-- What becomes of a node: a false clause prunes it, or the incumbent does, or it goes on to its branches.
inductive Fate (nVars : Nat) (frame : Frame) (below : List Frame) (s next : Search N) : Prop where
  | conflict (falsified : s.state.hasConflict = true) (stack : next.stack = below)
      (conflicts : next.stats.conflictPrunes = s.stats.conflictPrunes + 1)
      (bounds : next.stats.boundPrunes = s.stats.boundPrunes)
  | beaten (consistent : s.state.hasConflict = false) (best : Incumbent)
      (incumbent : next.incumbent = some best) (bound : frame.current + frame.remaining ≤ best.weight)
      (stack : next.stack = below)
      (conflicts : next.stats.conflictPrunes = s.stats.conflictPrunes)
      (bounds : next.stats.boundPrunes = s.stats.boundPrunes + 1)
  | branches (consistent : s.state.hasConflict = false) (inside : frame.var ≤ nVars)
      (stack : next.stack = { frame with stage := .tryFalse } :: below)
      (conflicts : next.stats.conflictPrunes = s.stats.conflictPrunes)
      (bounds : next.stats.boundPrunes = s.stats.boundPrunes)

-- What entering a node does to the statistics. None of the fates counts a leaf.
structure Visits (nVars : Nat) (frame : Frame) (below : List Frame) (s next : Search N) : Prop where
  nodes : next.stats.nodes = s.stats.nodes + 1
  leaves : next.stats.leaves = s.stats.leaves
  depth : next.stats.maxDepth = max s.stats.maxDepth (frame.var - 1)
  fate : Fate nVars frame below s next

end Visits

theorem isBeaten_iff {t : Tour} {bound : Nat} :
    t.isBeaten bound = true ↔ ∃ best, t.incumbent = some best ∧ bound ≤ best.weight := by
  unfold Tour.isBeaten
  cases t.incumbent with
  | none => simp
  | some best => simp

theorem consider_stats (t : Tour) (decided : List Bool) (weight : Nat) :
    ∃ trace, (t.consider f decided weight).stats = { t.stats with trace } := by
  unfold Tour.consider
  split
  · exact ⟨_, rfl⟩
  · exact ⟨_, rfl⟩

theorem openWeight_full (valid : f.Valid) : openWeight f f.nVars = 0 := by
  have covered : f.weights.toList.length = f.nVars + 1 := Array.length_toList.trans valid.weights_size
  rw [openWeight, List.drop_eq_nil_of_le (Nat.le_of_eq covered)]
  rfl

theorem isModel_of_consistent (valid : f.Valid) (full : decided.length = f.nVars)
    (consistent : f.clauses.any (Clause.isFalse (valuesOf f.nVars decided)) = false) :
    IsModel f decided := by
  simp only [IsModel, List.all_eq_true, List.any_eq_false] at consistent ⊢
  intro c member
  have unfalse := consistent c member
  rw [isFalse_full full (valid.in_range c member)] at unfalse
  simpa using unfalse

-- Such a node is recorded, unless the incumbent weighs as much already. It has no weight to add.
theorem consider_isBeaten (valid : f.Valid) (full : decided.length = f.nVars)
    (consistent : f.clauses.any (Clause.isFalse (valuesOf f.nVars decided)) = false) (t : Tour)
    (weight : Nat) :
    (t.consider f decided weight).isBeaten (weight + openWeight f decided.length) = true := by
  have model : f.clauses.all (Clause.isTrue (valuesOf f.nVars decided)) = true :=
    isModel_of_consistent valid full consistent
  rw [full, openWeight_full valid, Nat.add_zero, isBeaten_iff, Tour.consider, model, Bool.and_true]
  split
  · exact ⟨_, rfl, Nat.le_refl _⟩
  · rename_i worse
    cases found : t.incumbent with
    | none => simp [found, improves] at worse
    | some best => exact ⟨best, rfl, by simpa [found, improves] using worse⟩

theorem OnTrail.visits (fit : f.Searchable) (on : OnTrail f s) (top : s.stack = frame :: below)
    (stage : frame.stage = .enter) (stepped : advance f.nVars index frame below s = .ok next) :
    Visits f.nVars frame below s next := by
  obtain ⟨decided, rfl, trail, state⟩ := on.entered top stage
  have entered := @enter_eq f decided (bitWeight f decided) (openWeight f decided.length) below s.tour
    s.stack (trail.fits fit.toValid)
  have conflict := hasConflict_recount f (valuesOf f.nVars decided)
  rw [← state] at entered conflict
  obtain ⟨trace, counts⟩ :=
    consider_stats (f := f) (s.tour.count decided.length) decided (bitWeight f decided)
  have result := stepped.symm.trans entered
  rw [Except.ok.injEq] at result
  subst result
  cases falsified : f.clauses.any (Clause.isFalse (valuesOf f.nVars decided)) with
  | true => exact ⟨rfl, rfl, rfl, .conflict (conflict.trans falsified) rfl rfl rfl⟩
  | false =>
    have consistent := conflict.trans falsified
    simp only [Bool.false_eq_true, if_false, Tour.settle]
    split
    · rename_i beaten
      obtain ⟨best, found, bound⟩ := isBeaten_iff.mp beaten
      refine ⟨?_, ?_, ?_, .beaten consistent best found bound rfl ?_ ?_⟩ <;>
        (simp only [Tour.search, Tour.pruneBound, counts]; rfl)
    · rename_i unbeaten
      split
      · rename_i deep
        have full : decided.length = f.nVars :=
          Nat.le_antisymm trail.length_le (Nat.le_of_lt_succ deep)
        exact absurd (consider_isBeaten fit.toValid full falsified _ _) unbeaten
      · rename_i inside
        refine ⟨?_, ?_, ?_, .branches consistent (Nat.not_lt.mp inside) rfl ?_ ?_⟩ <;>
          (simp only [Tour.search, counts]; rfl)

-- Every node that is entered was due; a pruned one settles its own entry, any other adds one.
structure Balanced (f : Formula) (s : Search Nat) : Prop where
  nodes : s.stats.nodes + 1 = 2 * (s.stats.conflictPrunes + s.stats.boundPrunes) + due s.stack
  leaves : s.stats.leaves = 0
  depth : s.stats.maxDepth ≤ f.nVars

theorem start_balanced (f : Formula) (index : Occurrences) (sum : Nat) :
    Balanced f (.start index sum) :=
  ⟨rfl, rfl, Nat.zero_le _⟩

theorem Balanced.visit (balanced : Balanced f s) (top : s.stack = frame :: below)
    (stage : frame.stage = .enter) (shallow : frame.var - 1 ≤ f.nVars)
    (visits : Visits f.nVars frame below s next) : Balanced f next := by
  have nodes := balanced.nodes
  simp only [top, due_cons, stage, Stage.due] at nodes
  refine ⟨?_, visits.leaves.trans balanced.leaves, ?_⟩
  · rw [visits.nodes]
    cases visits.fate with
    | conflict _ stack conflicts bounds =>
      rw [stack, conflicts, bounds]
      omega
    | beaten _ _ _ _ stack conflicts bounds =>
      rw [stack, conflicts, bounds]
      omega
    | branches _ _ stack conflicts bounds =>
      simp only [stack, conflicts, bounds, due_cons, Stage.due]
      omega
  · rw [visits.depth]
    exact Nat.max_le.mpr ⟨balanced.depth, shallow⟩

theorem Balanced.advance (fit : f.Searchable) (balanced : Balanced f s) (on : OnTrail f s)
    (top : s.stack = frame :: below) (stepped : advance f.nVars index frame below s = .ok next) :
    Balanced f next := by
  have nodes := balanced.nodes
  rw [top, due_cons] at nodes
  cases advance_does stepped with
  | enters stage _ _ _ =>
    obtain ⟨decided, rfl, trail, _⟩ := on.entered top stage
    exact balanced.visit top stage trail.length_le (on.visits fit top stage stepped)
  | branches value child stage _ fresh stack _ stats =>
    refine ⟨?_, by rw [stats]; exact balanced.leaves, by rw [stats]; exact balanced.depth⟩
    rw [stats, stack, nodes, due_cons, due_cons]
    cases value <;> simp only [stage, fresh, Stage.due, Bool.false_eq_true, if_false, if_true] <;>
      omega
  | leaves stage stack _ stats =>
    refine ⟨?_, by rw [stats]; exact balanced.leaves, by rw [stats]; exact balanced.depth⟩
    simp only [stats, stack, nodes, stage, Stage.due]
    omega

theorem Reached.balanced (fit : f.Searchable) (tables : Tables f f.positions index) {count : Nat}
    (reached : Reached f.nVars index (.start index (total f.weights.toList)) count s) : Balanced f s := by
  induction reached with
  | start => exact start_balanced f index _
  | step earlier top stepped ih => exact ih.advance fit (earlier.onTrail fit tables) top stepped

theorem Visits.words {nVars : Nat} (visits : Visits nVars frame below s next) :
    Visits nVars frame below s.words next.words where
  nodes := by simp [Search.words, Stats.words, visits.nodes]
  leaves := by simp [Search.words, Stats.words, visits.leaves]
  depth := visits.depth
  fate := by
    cases visits.fate with
    | conflict falsified stack conflicts bounds =>
      refine .conflict falsified stack ?_ ?_ <;> simp [Search.words, Stats.words, conflicts, bounds]
    | beaten consistent best incumbent bound stack conflicts bounds =>
      refine .beaten consistent best incumbent bound stack ?_ ?_ <;>
        simp [Search.words, Stats.words, conflicts, bounds]
    | branches consistent inside stack conflicts bounds =>
      refine .branches consistent inside stack ?_ ?_ <;>
        simp [Search.words, Stats.words, conflicts, bounds]

structure Stats.Accounts (s : Stats UInt64) (nVars : Nat) (counts : Stats Nat) : Prop where
  words : s = counts.words
  counted : counts.nodes + 1 = 2 * (counts.conflictPrunes + counts.boundPrunes)
  unreached : counts.leaves = 0
  nodes : s.nodes = 2 * (s.conflictPrunes + s.boundPrunes) - 1
  exact : nVars < 64 → s.nodes.toNat + 1 = 2 * (s.conflictPrunes.toNat + s.boundPrunes.toNat)
  leaves : s.leaves = 0
  depth : s.maxDepth ≤ nVars

theorem ofNat_eq_of_succ_eq {nodes prunes : Nat} (counted : nodes + 1 = 2 * prunes) :
    UInt64.ofNat nodes = 2 * UInt64.ofNat prunes - 1 := by
  have words : UInt64.ofNat nodes + 1 = 2 * UInt64.ofNat prunes := by
    have same := congrArg UInt64.ofNat counted
    rw [UInt64.ofNat_add, UInt64.ofNat_mul] at same
    exact same
  rw [← words, UInt64.add_sub_cancel]

theorem accounts_of_counts {nVars : Nat} {counts : Stats Nat}
    (counted : counts.nodes + 1 = 2 * (counts.conflictPrunes + counts.boundPrunes))
    (unreached : counts.leaves = 0) (depth : counts.maxDepth ≤ nVars)
    (few : counts.nodes ≤ Nat.pow 2 (nVars + 1) - 1) : counts.words.Accounts nVars counts := by
  refine ⟨rfl, counted, unreached, ?_, ?_, congrArg UInt64.ofNat unreached, depth⟩
  · rw [Stats.words, ← UInt64.ofNat_add]
    exact ofNat_eq_of_succ_eq counted
  · intro fewVars
    have limit : Nat.pow 2 (nVars + 1) ≤ Nat.pow 2 64 := Nat.pow_le_pow_right (by decide) fewVars
    have size : Nat.pow 2 64 = 18446744073709551616 := rfl
    simp only [Stats.words, UInt64.toNat_ofNat']
    omega

-- The nodes are those of a full binary tree whose ends are the prunes, no node counts as a leaf, and no
-- node is deeper than there are variables. All through the walk the nodes that are still due make up the
-- difference, and a node is left only by one of the two tests; it branches only on a variable. So it is
-- for the true counts, and for the words that hold them in the arithmetic of words; with fewer than 64
-- variables no word is too small.
theorem nodes_are_twice_the_prunes {nVars : Nat} {weights : List Nat} {clauses : List (List Literal)}
    (built : Formula.build nVars weights (clauses.map Clause.ofLiterals) = .ok f)
    (short : ∀ c ∈ f.clauses, c.size < word32) :
    ∃ index sum, ∃ final : Search Nat, ∃ outcome, Occurrences.ofFormula f = .ok index ∧
      f.totalWeight = .ok sum ∧ run f.nVars index (.start index sum) = .ok final ∧
      solve f = .ok outcome ∧ outcome.stats.Accounts f.nVars final.stats ∧
      ∀ count, ∀ s : Search UInt64, Reached f.nVars index (.start index sum) count s →
        (∃ counted : Search Nat, Reached f.nVars index (.start index sum) count counted ∧
          s = counted.words ∧ Balanced f counted) ∧
        ∀ frame below, s.stack = frame :: below → frame.stage = .enter →
          ∃ next, advance f.nVars index frame below s = .ok next ∧ Visits f.nVars frame below s next := by
  have fit : f.Searchable := ⟨Formula.valid_of_build built, short⟩
  have valid := fit.toValid
  obtain ⟨index, made, tables⟩ := ofFormula_tables valid
  obtain ⟨steps, final, ran, ends, empty, walked⟩ := reached_walkAll fit tables
  obtain ⟨nodes, leaves, depth⟩ := ends.balanced fit tables
  have solved := solve_eq fit
  rw [← walked] at solved
  rw [empty] at nodes
  refine ⟨index, _, final, _, made, totalWeight_eq valid, ran, solved,
    accounts_of_counts nodes leaves depth (reached_nodes_le ends), ?_⟩
  intro count s reached
  obtain ⟨counted, beside, rfl⟩ := reached.counted
  refine ⟨⟨counted, beside, rfl, beside.balanced fit tables⟩, ?_⟩
  intro frame below top stage
  have on := beside.onTrail fit tables
  obtain ⟨next, stepped, _⟩ := on.advance_ok fit tables top
  exact ⟨next.words, advance_words_ok stepped, (on.visits fit top stage stepped).words⟩

-- Two nodes are pruned by a false clause and two by the incumbent; three nodes branch.
theorem nodes_are_twice_the_prunes_seven :
    let clauses : List (List Literal) := [[.positive 1, .positive 2], [.negative 1, .negative 2]]
    let f := Formula.ofParts 2 [3, 2] (clauses.map Clause.mk)
    Formula.build 2 [3, 2] (clauses.map Clause.ofLiterals) = .ok f ∧
      (walkAll f).stats.nodes = 7 ∧ (walkAll f).stats.conflictPrunes = 2 ∧
      (walkAll f).stats.boundPrunes = 2 ∧
      ∃ index sum, ∃ final : Search Nat, ∃ outcome, Occurrences.ofFormula f = .ok index ∧
        f.totalWeight = .ok sum ∧ run f.nVars index (.start index sum) = .ok final ∧
        solve f = .ok outcome ∧ outcome.stats.Accounts f.nVars final.stats ∧
        ∀ count, ∀ s : Search UInt64, Reached f.nVars index (.start index sum) count s →
          (∃ counted : Search Nat, Reached f.nVars index (.start index sum) count counted ∧
            s = counted.words ∧ Balanced f counted) ∧
          ∀ frame below, s.stack = frame :: below → frame.stage = .enter →
            ∃ next, advance f.nVars index frame below s = .ok next ∧
              Visits f.nVars frame below s next := by
  intro clauses f
  have built : Formula.build 2 [3, 2] (clauses.map Clause.ofLiterals) = .ok f := rfl
  have short : ∀ c ∈ f.clauses, c.size < word32 := by decide
  exact ⟨built, by decide, by decide, by decide, nodes_are_twice_the_prunes built short⟩

end WeightedCnf.BranchBound
