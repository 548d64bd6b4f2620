import WeightedCnf.Error
import WeightedCnf.Literal

namespace WeightedCnf

structure Assignment where
  values : Array Bool
deriving DecidableEq, Repr

namespace Assignment

def size (a : Assignment) : Nat := a.values.size

def isEmpty (a : Assignment) : Bool := a.values.isEmpty

def value (a : Assignment) (var : Nat) : Except Fault Bool := do
  entry a.values (← subtract var 1)

def allFalse (nVars : Nat) : Except Fault Assignment := do
  reserve 1 nVars
  return ⟨Array.replicate nVars false⟩

def satisfy (nVars : Nat) (a : Assignment) (l : Literal) : Except Error Assignment :=
  if nVars < l.var then .error (.formula (.modelVariable l.var nVars))
  else .ok ⟨a.values.setIfInBounds (l.var - 1) (!l.negated)⟩

-- Variables that are not mentioned are false, zeros are skipped, and the last literal of a variable wins.
def ofInts (nVars : Nat) (ints : List Int) : Except Error Assignment := do
  let start ← allFalse nVars
  (ints.filterMap Literal.ofInt?).foldlM (satisfy nVars) start

def pairs (a : Assignment) : List (Nat × Bool) :=
  (a.values.toList.zipIdx 1).map fun (value, var) => (var, value)

def trueVars (a : Assignment) : List Nat :=
  (a.pairs.filter (·.2)).map (·.1)

def toInts (a : Assignment) : List Int :=
  a.pairs.map fun (var, value) => if value then (var : Int) else -(var : Int)

def text (a : Assignment) : String :=
  let cell := fun ((var, value) : Nat × Bool) => s!"x{var} = " ++ (if value then "1" else "0")
  "[" ++ String.intercalate ", " (a.pairs.map cell) ++ "]"

end Assignment

end WeightedCnf
