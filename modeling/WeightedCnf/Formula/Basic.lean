import WeightedCnf.Clause

-- Assignments are ranked by a score below `(total weight + 1) * (clauses + 1)`. A formula is built only if
-- that bound is at most `maxScore`, so that every score is an exact floating-point number.

namespace WeightedCnf

-- `weights` has one entry for each variable after an entry 0 that belongs to no variable.
structure Formula where
  nVars : Nat
  weights : Array Nat
  clauses : List Clause
deriving DecidableEq, Repr

namespace Formula

def maxScore : Nat := 9007199254740992

-- Every step is done in 64 bit words.
def scoreBound (weights : List Nat) (numClauses : Nat) : Option Nat := do
  let sum ← (sum64 weights).toOption
  let parts ← (add64 numClauses 1).toOption
  let bound ← (mul64 (← (add64 sum 1).toOption) parts).toOption
  if bound ≤ maxScore then some bound else none

def ofParts (nVars : Nat) (weights : List Nat) (clauses : List Clause) : Formula :=
  ⟨nVars, (0 :: weights).toArray, clauses⟩

def strayLiteral? (nVars : Nat) (clauses : List Clause) : Option (Nat × Literal) :=
  clauses.zipIdx.findSome? fun (clause, position) =>
    (clause.literals.find? (!·.inRange nVars)).map (position, ·)

def build (nVars : Nat) (weights : List Nat) (clauses : List Clause) : Except Error Formula :=
  if weights.length ≠ nVars then .error (.formula (.weightCount nVars weights.length))
  else match strayLiteral? nVars clauses with
    | some (position, l) => .error (.formula (.clauseVariable position l.var nVars))
    | none =>
      if (scoreBound weights clauses.length).isNone then .error (.formula (.weightOverflow maxScore))
      else .ok (ofParts nVars weights clauses)

def numClauses (f : Formula) : Nat := f.clauses.length

def vars (f : Formula) : List Nat := List.range' 1 f.nVars

def weight (f : Formula) (var : Nat) : Except Fault Nat := entry f.weights var

def totalWeight (f : Formula) : Except Fault Nat := sum64 f.weights.toList

def requireCover (f : Formula) (a : Assignment) : Except Fault Unit :=
  if f.nVars ≤ a.size then .ok () else .error .lengthMismatch

def countSatisfied (f : Formula) (a : Assignment) : Except Fault Nat := do
  f.requireCover a
  f.clauses.foldlM (fun count c => return if ← c.isSatisfiedBy a then count + 1 else count) 0

def isSatisfiedBy (f : Formula) (a : Assignment) : Except Fault Bool := do
  f.requireCover a
  f.clauses.allM (·.isSatisfiedBy a)

def weightOf (f : Formula) (a : Assignment) : Except Fault Nat := do
  f.requireCover a
  f.vars.foldlM (fun sum var => do
    if ← a.value var then add64 sum (← f.weight var) else return sum) 0

def text (f : Formula) : String := String.intercalate " ∧ " (f.clauses.map Clause.text)

end Formula

end WeightedCnf
