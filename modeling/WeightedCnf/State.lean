import WeightedCnf.Occurrences

-- A tally counts the literals of a clause that are true and those that are false. A change of one variable
-- changes only the tallies in its occurrence lists; the totals are kept along with them.

namespace WeightedCnf

structure Tally where
  trues : Nat
  falses : Nat
  size : Nat
deriving DecidableEq, Repr

namespace Tally

-- No literal of the clause has a value. Sizes are 32 bit words.
def fresh (size : Nat) : Tally := ⟨0, 0, size % word32⟩

def isSatisfied (t : Tally) : Bool := 0 < t.trues

def isConflict (t : Tally) : Bool := t.falses == t.size

end Tally

structure Tallies where
  clauses : Array Tally
  satisfied : Nat
  conflicts : Nat
deriving DecidableEq, Repr

namespace Tallies

-- A clause without literals is in conflict from the start.
def fresh (sizes : Array Nat) : Tallies :=
  let clauses := sizes.map Tally.fresh
  ⟨clauses, 0, clauses.countP Tally.isConflict⟩

def gain (truth : Bool) (ts : Tallies) (clause : Nat) : Except Fault Tallies := do
  let t ← entry ts.clauses clause
  if truth then
    let trues ← add32 t.trues 1
    let satisfied ← (if trues = 1 then add64 ts.satisfied 1 else .ok ts.satisfied)
    return { ts with clauses := ts.clauses.setIfInBounds clause { t with trues }, satisfied }
  else
    let falses ← add32 t.falses 1
    let conflicts ← (if falses = t.size then add64 ts.conflicts 1 else .ok ts.conflicts)
    return { ts with clauses := ts.clauses.setIfInBounds clause { t with falses }, conflicts }

def lose (truth : Bool) (ts : Tallies) (clause : Nat) : Except Fault Tallies := do
  let t ← entry ts.clauses clause
  if truth then
    let trues ← subtract t.trues 1
    let satisfied ← (if trues = 0 then subtract ts.satisfied 1 else .ok ts.satisfied)
    return { ts with clauses := ts.clauses.setIfInBounds clause { t with trues }, satisfied }
  else
    let falses ← subtract t.falses 1
    let conflicts ← (if t.falses = t.size then subtract ts.conflicts 1 else .ok ts.conflicts)
    return { ts with clauses := ts.clauses.setIfInBounds clause { t with falses }, conflicts }

def turn (truth : Bool) (ts : Tallies) (clause : Nat) : Except Fault Tallies := do
  (← ts.lose truth clause).gain (!truth) clause

end Tallies

structure State where
  values : Array (Option Bool)
  tallies : Tallies
  trueWeight : Nat
deriving DecidableEq, Repr

namespace State

def fresh (index : Occurrences) : State :=
  ⟨Array.replicate (index.nVars + 1) none, .fresh index.sizes, 0⟩

def gainWeight (index : Occurrences) (var : Nat) (value : Bool) (sum : Nat) : Except Fault Nat :=
  if value then do add64 sum (← index.weight var) else .ok sum

def loseWeight (index : Occurrences) (var : Nat) (value : Bool) (sum : Nat) : Except Fault Nat :=
  if value then do subtract sum (← index.weight var) else .ok sum

def turnWeight (index : Occurrences) (var : Nat) (value : Bool) (sum : Nat) : Except Fault Nat := do
  let weight ← index.weight var
  if value then subtract sum weight else add64 sum weight

def assign (index : Occurrences) (var : Nat) (value : Bool) (s : State) : Except Fault State := do
  if (← entry s.values var).isSome then throw .alreadyAssigned
  let tallies ← (← index.clauses false var).foldlM (Tallies.gain value) s.tallies
  let tallies ← (← index.clauses true var).foldlM (Tallies.gain !value) tallies
  let trueWeight ← gainWeight index var value s.trueWeight
  return ⟨s.values.setIfInBounds var (some value), tallies, trueWeight⟩

def assigned (s : State) (var : Nat) : Except Fault Bool := do
  match ← entry s.values var with
  | some value => return value
  | none => throw .notAssigned

def unassign (index : Occurrences) (var : Nat) (s : State) : Except Fault State := do
  let value ← s.assigned var
  let tallies ← (← index.clauses false var).foldlM (Tallies.lose value) s.tallies
  let tallies ← (← index.clauses true var).foldlM (Tallies.lose !value) tallies
  let trueWeight ← loseWeight index var value s.trueWeight
  return ⟨s.values.setIfInBounds var none, tallies, trueWeight⟩

def flip (index : Occurrences) (var : Nat) (s : State) : Except Fault State := do
  let value ← s.assigned var
  let tallies ← (← index.clauses false var).foldlM (Tallies.turn value) s.tallies
  let tallies ← (← index.clauses true var).foldlM (Tallies.turn !value) tallies
  let trueWeight ← turnWeight index var value s.trueWeight
  return ⟨s.values.setIfInBounds var (some !value), tallies, trueWeight⟩

def ofValues (index : Occurrences) (values : List Bool) : Except Fault State := do
  if values.length ≠ index.nVars then throw .lengthMismatch
  (values.zipIdx 1).foldlM (fun s (value, var) => s.assign index var value) (fresh index)

def value (s : State) (var : Nat) : Except Fault (Option Bool) := entry s.values var

def tally (s : State) (clause : Nat) : Except Fault Tally := entry s.tallies.clauses clause

def nVars (s : State) : Nat := s.values.size - 1

def isSatisfied (s : State) : Bool := s.tallies.satisfied == s.tallies.clauses.size

def hasConflict (s : State) : Bool := 0 < s.tallies.conflicts

def unsatisfied (s : State) : List Nat :=
  (s.tallies.clauses.toList.zipIdx.filter fun (t, _) => !t.isSatisfied).map (·.2)

def toAssignment (s : State) : Assignment :=
  ⟨(s.values.toList.tail.map (·.getD false)).toArray⟩

def agrees (s t : State) : Bool :=
  s.values == t.values && s.tallies.clauses == t.tallies.clauses && s.trueWeight == t.trueWeight

end State

end WeightedCnf
