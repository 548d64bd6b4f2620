import WeightedCnf.Formula.Basic

namespace WeightedCnf

structure Occurrences where
  positive : Array (Array Nat)
  negative : Array (Array Nat)
  sizes : Array Nat
  weights : Array Nat
deriving DecidableEq, Repr

namespace Occurrences

def empty (slots : Nat) (f : Formula) : Occurrences :=
  ⟨Array.replicate slots #[], Array.replicate slots #[], (f.clauses.map Clause.size).toArray, f.weights⟩

def add (clause : Nat) (index : Occurrences) (l : Literal) : Except Fault Occurrences :=
  if l.negated then
    if l.var < index.negative.size then
      .ok { index with negative := index.negative.modify l.var (·.push clause) }
    else .error .outOfRange
  else
    if l.var < index.positive.size then
      .ok { index with positive := index.positive.modify l.var (·.push clause) }
    else .error .outOfRange

def addClause (index : Occurrences) (numbered : Clause × Nat) : Except Fault Occurrences :=
  numbered.1.literals.foldlM (add numbered.2) index

-- There is room for as many entries as there are weights; a formula that claims more variables than
-- that needs a table that memory can hold.
def requireRoom (f : Formula) : Except Fault Unit :=
  if f.nVars < f.weights.size then .ok () else reserve 24 (f.nVars + 1)

def ofFormula (f : Formula) : Except Fault Occurrences := do
  requireRoom f
  f.clauses.zipIdx.foldlM addClause (empty (f.nVars + 1) f)

def nVars (index : Occurrences) : Nat := index.positive.size - 1

def numClauses (index : Occurrences) : Nat := index.sizes.size

def clauses (index : Occurrences) (negated : Bool) (var : Nat) : Except Fault (Array Nat) :=
  entry (if negated then index.negative else index.positive) var

def weight (index : Occurrences) (var : Nat) : Except Fault Nat := entry index.weights var

def degree (index : Occurrences) (var : Nat) : Except Fault Nat :=
  return (← index.clauses false var).size + (← index.clauses true var).size

end Occurrences

end WeightedCnf
