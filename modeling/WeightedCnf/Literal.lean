import WeightedCnf.Fault

namespace WeightedCnf

structure Literal where
  var : Nat
  negated : Bool
deriving DecidableEq, Repr

namespace Literal

def positive (var : Nat) : Literal := ⟨var, false⟩

def negative (var : Nat) : Literal := ⟨var, true⟩

def negate (l : Literal) : Literal := { l with negated := !l.negated }

def holds (l : Literal) (value : Bool) : Bool := value != l.negated

def ofInt? (i : Int) : Option Literal :=
  if i = 0 then none else some ⟨i.natAbs, decide (i < 0)⟩

-- Signed 64 bit words: a variable that does not fit wraps around, and the least word has no negation.
def toInt (l : Literal) : Except Fault Int :=
  let base := Int.bmod l.var word64
  if l.negated then
    if base = -9223372036854775808 then .error .overflow else .ok (-base)
  else .ok base

def inRange (nVars : Nat) (l : Literal) : Bool := decide (0 < l.var) && decide (l.var ≤ nVars)

def le (a b : Literal) : Bool :=
  decide (a.var < b.var) || (a.var == b.var && (!a.negated || b.negated))

def text (l : Literal) : String := (if l.negated then "¬x" else "x") ++ toString l.var

end Literal

end WeightedCnf
