import WeightedCnf.LocalSearch.Settings
import WeightedCnf.Solution

namespace WeightedCnf.LocalSearch

structure Result where
  score : Nat
  solution : Solution
  stats : Annealing.Stats

structure Solver where
  formula : Formula
  landscape : Landscape
  plan : Plan
  limits : Annealing.Limits

namespace Solver

def prepareWith (f : Formula) (index : Occurrences) (settings : Settings) : Except Error Solver := do
  settings.validate
  let landscape ← Landscape.ofFormula f index
  return ⟨f, landscape, settings.plan, settings.limits⟩

def prepare (f : Formula) (settings : Settings) : Except Error Solver := do
  let index ← Occurrences.ofFormula f
  prepareWith f index settings

variable {σ : Type} [WordSource σ]

-- The score and the assignment of the best state; without any restart the score is zero and every
-- variable is false.
def best (solver : Solver) (o : Annealing.Outcome State) : Except Fault (Nat × Assignment) :=
  match o.best.state with
  | some state => return (← solver.landscape.score state, state.toAssignment)
  | none => return (0, ← Assignment.allFalse solver.formula.nVars)

def runWithin (solver : Solver) (fuel : Nat) : Draw σ Result := do
  let outcome ← Annealing.run (solver.plan.problem solver.landscape) solver.limits fuel
  let (score, assignment) ← solver.best outcome
  let solution ← Solution.evaluate solver.formula assignment
  return ⟨score, solution, outcome.toStats⟩

end Solver

end WeightedCnf.LocalSearch
