import WeightedCnf.Annealing.Problem
import WeightedCnf.LocalSearch.Rule
import WeightedCnf.LocalSearch.Score

namespace WeightedCnf.LocalSearch

open Annealing

variable {σ : Type} [WordSource σ]

namespace Landscape

def randomMove (l : Landscape) (s : State) : Draw σ (Proposal State) := do
  if s.nVars = 0 then return ⟨s, true⟩
  let var ← Draw.upto s.nVars
  return ⟨← s.flip l.index var, false⟩

-- Flips a variable with the largest score after the flip; asks to stop if that is a loss.
def greedyMove (l : Landscape) (s : State) : Draw σ (Proposal State) := do
  let current ← l.score s
  match ← l.bestFlips (List.range' 1 s.nVars) s with
  | (none, s) => return ⟨s, true⟩
  | (some best, s) =>
    let var ← Draw.choose best.vars
    return ⟨← s.flip l.index var, best.score < current⟩

-- Flips a variable with the largest score after the flip if that is a gain, and stops otherwise.
def greediestMove (l : Landscape) (s : State) : Draw σ (Proposal State) := do
  let current ← l.score s
  match ← l.bestFlips (List.range' 1 s.nVars) s with
  | (none, s) => return ⟨s, true⟩
  | (some best, s) =>
    if current < best.score then
      let var ← Draw.choose best.vars
      return ⟨← s.flip l.index var, false⟩
    else return ⟨s, true⟩

def repairVar (l : Landscape) (vars : List Nat) (s : State) : Draw σ (Nat × State) := do
  let current ← l.score s
  match ← l.bestFlips vars s with
  | (some best, s) =>
    if current < best.score then return (← Draw.choose best.vars, s)
    else return (← Draw.choose vars, s)
  | (none, s) => return (← Draw.choose vars, s)

-- Flips a variable of a clause that is not satisfied, every other time on average one at random. If there is
-- no such clause, or if it has no variable, the move is the greedy one.
def walksatMove (l : Landscape) (s : State) : Draw σ (Proposal State) := do
  if s.unsatisfied.isEmpty then l.greedyMove s
  else
    let clause ← Draw.choose s.unsatisfied
    let vars ← entry l.clauseVars clause
    if vars.isEmpty then l.greedyMove s
    else if ← Draw.coin then
      let var ← Draw.choose vars
      return ⟨← s.flip l.index var, false⟩
    else
      let (var, s) ← l.repairVar vars s
      return ⟨← s.flip l.index var, false⟩

end Landscape

def MoveRule.propose (rule : MoveRule) (l : Landscape) (s : State) : Draw σ (Proposal State) :=
  match rule with
  | random => l.randomMove s
  | greedy => l.greedyMove s
  | greediest => l.greediestMove s
  | walksat => l.walksatMove s

end WeightedCnf.LocalSearch
