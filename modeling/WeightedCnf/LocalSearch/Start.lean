import WeightedCnf.LocalSearch.Rule
import WeightedCnf.Random.Draw
import WeightedCnf.State

namespace WeightedCnf.LocalSearch.StartRule

variable {σ : Type} [WordSource σ]

-- The polarity that makes more occurrences of a variable true; a tie is drawn.
def majority (index : Occurrences) (var : Nat) : Draw σ Bool := do
  let positive := (← index.clauses false var).size
  let negative := (← index.clauses true var).size
  if negative < positive then return true
  else if positive < negative then return false
  else Draw.bool

def values (rule : StartRule) (index : Occurrences) : Draw σ (List Bool) :=
  match rule with
  | allFalse => pure (List.replicate index.nVars false)
  | allTrue => pure (List.replicate index.nVars true)
  | random => (List.range' 1 index.nVars).mapM fun _ => Draw.bool
  | greedy => (List.range' 1 index.nVars).mapM (majority index)

def state (rule : StartRule) (index : Occurrences) : Draw σ State := do
  State.ofValues index (← rule.values index)

end WeightedCnf.LocalSearch.StartRule
