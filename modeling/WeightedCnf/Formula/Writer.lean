import WeightedCnf.Formula.Basic

namespace WeightedCnf.Formula

def numberLine (ints : List Int) : String :=
  String.join (ints.map fun i => toString i ++ " ") ++ "0\n"

def toText (f : Formula) : Except Fault String := do
  if f.weights.isEmpty then .error .outOfRange
  let weights := f.weights.toList.tail.map Int.ofNat
  let clauses ← f.clauses.mapM fun c => return numberLine (← c.literals.mapM Literal.toInt)
  return s!"p cnf {f.nVars} {f.numClauses}\n" ++ "w " ++ numberLine weights ++ String.join clauses

end WeightedCnf.Formula
