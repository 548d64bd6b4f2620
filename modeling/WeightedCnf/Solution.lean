import WeightedCnf.Formula.Basic

namespace WeightedCnf

structure Solution where
  weight : Nat
  satisfied : Nat
  numClauses : Nat
  assignment : Assignment
deriving DecidableEq, Repr

namespace Solution

def evaluate (f : Formula) (a : Assignment) : Except Fault Solution := do
  let weight ← f.weightOf a
  let satisfied ← f.countSatisfied a
  return ⟨weight, satisfied, f.numClauses, a⟩

def isSatisfying (s : Solution) : Bool := s.satisfied == s.numClauses

end Solution

end WeightedCnf
