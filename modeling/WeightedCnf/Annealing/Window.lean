import WeightedCnf.Fault

namespace WeightedCnf.Annealing

structure Window where
  capacity : Nat
  scores : Array Float

namespace Window

def empty (capacity : Nat) : Except Fault Window := do
  reserve 8 capacity
  return ⟨capacity, #[]⟩

-- Adds a score; a full window loses its oldest one. A window without room keeps no score.
def push (w : Window) (score : Float) : Window :=
  if w.capacity = 0 then w
  else if w.scores.size = w.capacity then
    { w with scores := (w.scores.extract 1 w.scores.size).push score }
  else { w with scores := w.scores.push score }

def isFull (w : Window) : Bool := w.scores.size == w.capacity

def sumChanges (scores : Array Float) : Float :=
  Nat.fold (scores.size - 1)
    (fun i _ sum => sum + (scores.getD (i + 1) 0.0 - scores.getD i 0.0).abs) 0.0

def meanChange (w : Window) : Float :=
  if w.scores.size < 2 then 0.0 else sumChanges w.scores / (w.scores.size - 1).toUInt64.toFloat

def isStagnant (w : Window) (threshold : Float) : Bool := w.isFull && w.meanChange < threshold

end Window

end WeightedCnf.Annealing
