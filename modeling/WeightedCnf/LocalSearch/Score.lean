import WeightedCnf.State

-- A satisfied clause counts more than all variables together weigh, so one more satisfied clause outranks
-- every change of weight.

namespace WeightedCnf.LocalSearch

structure Landscape where
  index : Occurrences
  clauseVars : Array (List Nat)
  clauseWeight : Nat
deriving DecidableEq, Repr

structure BestFlips where
  score : Nat
  vars : List Nat
deriving DecidableEq, Repr

namespace Landscape

def ofFormula (f : Formula) (index : Occurrences) : Except Fault Landscape := do
  let clauseWeight ← add64 (← f.totalWeight) 1
  return ⟨index, (f.clauses.map Clause.vars).toArray, clauseWeight⟩

def score (l : Landscape) (s : State) : Except Fault Nat := do
  add64 (← mul64 l.clauseWeight s.tallies.satisfied) s.trueWeight

def evaluate (l : Landscape) (s : State) : Except Fault Float :=
  return (← l.score s).toUInt64.toFloat

def tryFlip (l : Landscape) (var : Nat) (s : State) : Except Fault (Nat × State) := do
  let there ← s.flip l.index var
  let score ← l.score there
  let back ← there.flip l.index var
  return (score, back)

def rank (best : Option BestFlips) (score var : Nat) : BestFlips :=
  match best with
  | none => ⟨score, [var]⟩
  | some b =>
    if score = b.score then ⟨b.score, b.vars ++ [var]⟩
    else if score < b.score then b
    else ⟨score, [var]⟩

-- Flips each candidate in turn and takes it back.
def bestFlips (l : Landscape) (candidates : List Nat) (s : State) :
    Except Fault (Option BestFlips × State) :=
  candidates.foldlM (fun (best, s) var => do
    let (score, s) ← l.tryFlip var s
    return (some (rank best score var), s)) (none, s)

end Landscape

end WeightedCnf.LocalSearch
