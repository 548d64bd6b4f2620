import Mathlib.Data.List.Forall2
import WeightedCnf.Proofs.BranchBound.Solve

namespace WeightedCnf

def Clause.SameLiterals (c d : Clause) : Prop := c.literals.Perm d.literals

-- The same clauses in some order, each with its literals in some order.
def Clause.Rearranged (cs ds : List Clause) : Prop :=
  ∃ between, cs.Perm between ∧ List.Forall₂ Clause.SameLiterals between ds

namespace Clause
variable {c d : Clause} {cs ds : List Clause}

theorem SameLiterals.isTrue_eq (same : SameLiterals c d) (values : Array (Option Bool)) :
    c.isTrue values = d.isTrue values := same.any_eq

theorem SameLiterals.isFalse_eq (same : SameLiterals c d) (values : Array (Option Bool)) :
    c.isFalse values = d.isFalse values := same.all_eq

theorem all_eq_of_forall₂ {p : Clause → Bool} (respects : ∀ c d, SameLiterals c d → p c = p d)
    (paired : List.Forall₂ SameLiterals cs ds) : cs.all p = ds.all p := by
  induction paired with
  | nil => rfl
  | cons same _ ih => rw [List.all_cons, List.all_cons, respects _ _ same, ih]

namespace Rearranged

theorem length_eq (rearranged : Rearranged cs ds) : cs.length = ds.length := by
  obtain ⟨between, perm, paired⟩ := rearranged
  exact perm.length_eq.trans paired.length_eq

theorem all_eq (rearranged : Rearranged cs ds) {p : Clause → Bool}
    (respects : ∀ c d, SameLiterals c d → p c = p d) : cs.all p = ds.all p := by
  obtain ⟨between, perm, paired⟩ := rearranged
  exact perm.all_eq.trans (all_eq_of_forall₂ respects paired)

theorem any_eq (rearranged : Rearranged cs ds) {p : Clause → Bool}
    (respects : ∀ c d, SameLiterals c d → p c = p d) : cs.any p = ds.any p := by
  have negated : ∀ c d, SameLiterals c d → (!p c) = !p d :=
    fun c d same => congrArg (!·) (respects c d same)
  rw [List.any_eq_not_all_not, List.any_eq_not_all_not, rearranged.all_eq negated]

theorem allTrue_eq (rearranged : Rearranged cs ds) (values : Array (Option Bool)) :
    cs.all (isTrue values) = ds.all (isTrue values) :=
  rearranged.all_eq fun _ _ same => same.isTrue_eq values

theorem anyFalse_eq (rearranged : Rearranged cs ds) (values : Array (Option Bool)) :
    cs.any (isFalse values) = ds.any (isFalse values) :=
  rearranged.any_eq fun _ _ same => same.isFalse_eq values

theorem short (rearranged : Rearranged cs ds) (short : ∀ c ∈ cs, c.size < word32) :
    ∀ d ∈ ds, d.size < word32 := by
  have respects : ∀ c d, SameLiterals c d → decide (c.size < word32) = decide (d.size < word32) := by
    intro c d same
    rw [size, size, same.length_eq]
  have before : cs.all (fun c => decide (c.size < word32)) = true := by simpa using short
  have after := (rearranged.all_eq respects).symm.trans before
  simpa using after

end Rearranged

end Clause

namespace BranchBound

section Order
variable {f g : Formula} (nVars : f.nVars = g.nVars)
  (clauses : Clause.Rearranged f.clauses g.clauses)
include nVars clauses

theorem consider_rearranged (decided : List Bool) (current : Nat) (t : Tour) :
    t.consider f decided current = t.consider g decided current := by
  simp only [Tour.consider, nVars, clauses.allTrue_eq]

variable (weights : f.weights = g.weights)
include weights

-- The subtrees below a node are walked alike, whatever was found before.
theorem walk_rearranged (height : Nat) (decided : List Bool) (remaining current : Nat) (t : Tour) :
    walk f height decided remaining current t = walk g height decided remaining current t := by
  induction height generalizing decided remaining current t with
  | zero =>
    unfold walk
    simp only [nVars, clauses.anyFalse_eq, consider_rearranged nVars clauses]
  | succ height ih =>
    unfold walk
    simp only [nVars, weights, clauses.anyFalse_eq, consider_rearranged nVars clauses, ih]

theorem walkAll_rearranged : walkAll f = walkAll g := by
  rw [walkAll, walkAll, walk_rearranged nVars clauses weights, nVars, weights]

end Order

-- One outcome: the assignment, its weight and satisfied clauses, and all statistics. Its counters hold
-- the counts of the recursive walks, which are the same.
theorem search_ignores_order {nVars : Nat} {weights : List Nat}
    {cs ds : List (List Literal)} {f g : Formula}
    (one : Formula.build nVars weights (cs.map Clause.ofLiterals) = .ok f)
    (other : Formula.build nVars weights (ds.map Clause.ofLiterals) = .ok g)
    (short : ∀ c ∈ f.clauses, c.size < word32)
    (rearranged : Clause.Rearranged f.clauses g.clauses) :
    ∃ outcome, solve f = .ok outcome ∧ solve g = .ok outcome ∧ walkAll f = walkAll g ∧
      outcome.stats = (walkAll f).stats.words := by
  have first : f.Searchable := ⟨Formula.valid_of_build one, short⟩
  have second : g.Searchable := ⟨Formula.valid_of_build other, rearranged.short short⟩
  obtain ⟨_, _, _, partsOne⟩ := Formula.build_eq_ok_iff.mp one
  obtain ⟨_, _, _, partsOther⟩ := Formula.build_eq_ok_iff.mp other
  have sameVars : f.nVars = g.nVars := by rw [partsOne, partsOther]; rfl
  have sameWeights : f.weights = g.weights := by rw [partsOne, partsOther]; rfl
  have sameWalk := walkAll_rearranged sameVars rearranged sameWeights
  have sameCount : f.numClauses = g.numClauses := rearranged.length_eq
  refine ⟨_, solve_eq first, ?_, sameWalk, rfl⟩
  rw [solve_eq second, sameWalk]
  simp only [Incumbent.solution, sameCount]

-- Clauses and literals change places, so the occurrence lists differ; one clause is a tautology, and the
-- incumbent is replaced on the way.
theorem search_ignores_order_shuffled :
    let cs : List (List Literal) :=
      [[.positive 1, .positive 2], [.negative 1, .negative 2], [.positive 3, .negative 3]]
    let ds : List (List Literal) :=
      [[.negative 3, .positive 3], [.positive 2, .positive 1], [.negative 2, .negative 1]]
    let f := Formula.ofParts 3 [3, 2, 0] (cs.map Clause.mk)
    let g := Formula.ofParts 3 [3, 2, 0] (ds.map Clause.mk)
    Formula.build 3 [3, 2, 0] (cs.map Clause.ofLiterals) = .ok f ∧
      Formula.build 3 [3, 2, 0] (ds.map Clause.ofLiterals) = .ok g ∧
      Clause.Rearranged f.clauses g.clauses ∧
      Occurrences.ofFormula f ≠ Occurrences.ofFormula g ∧
      (walkAll g).incumbent = some ⟨3, ⟨#[true, false, false]⟩⟩ ∧
      ∃ outcome, solve f = .ok outcome ∧ solve g = .ok outcome ∧ walkAll f = walkAll g ∧
        outcome.stats = (walkAll f).stats.words := by
  intro cs ds f g
  have one : Formula.build 3 [3, 2, 0] (cs.map Clause.ofLiterals) = .ok f := rfl
  have other : Formula.build 3 [3, 2, 0] (ds.map Clause.ofLiterals) = .ok g := rfl
  have short : ∀ c ∈ f.clauses, c.size < word32 := by decide
  have rearranged : Clause.Rearranged f.clauses g.clauses := by
    refine ⟨[⟨[.positive 3, .negative 3]⟩, ⟨[.positive 1, .positive 2]⟩,
      ⟨[.negative 1, .negative 2]⟩], by decide, ?_⟩
    exact .cons (.swap _ _ _) (.cons (.swap _ _ _) (.cons (.swap _ _ _) .nil))
  exact ⟨one, other, rearranged, by decide, by decide,
    search_ignores_order one other short rearranged⟩

end BranchBound

end WeightedCnf
