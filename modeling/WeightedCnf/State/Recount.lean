import WeightedCnf.State

namespace WeightedCnf

-- Entry 0 of the values belongs to no variable; a variable beyond the last has no value.
def Literal.truth? (values : Array (Option Bool)) (l : Literal) : Option Bool :=
  values[l.var]?.join.map l.holds

namespace Clause

def isTrue (values : Array (Option Bool)) (c : Clause) : Bool :=
  c.literals.any (·.truth? values == some true)

-- A clause without literals is false under all values.
def isFalse (values : Array (Option Bool)) (c : Clause) : Bool :=
  c.literals.all (·.truth? values == some false)

end Clause

def Tally.recount (values : Array (Option Bool)) (c : Clause) : Tally :=
  ⟨c.literals.countP (·.truth? values == some true),
    c.literals.countP (·.truth? values == some false), c.size⟩

def Tallies.recount (values : Array (Option Bool)) (clauses : List Clause) : Tallies :=
  ⟨(clauses.map (Tally.recount values)).toArray, clauses.countP (Clause.isTrue values),
    clauses.countP (Clause.isFalse values)⟩

def Formula.weightUnder (f : Formula) (values : Array (Option Bool)) : Nat :=
  let trues := f.vars.filter fun var => values[var]? == some (some true)
  total (trues.map fun var => f.weights.getD var 0)

def State.recount (f : Formula) (values : Array (Option Bool)) : State :=
  ⟨values, .recount values f.clauses, f.weightUnder values⟩

end WeightedCnf
