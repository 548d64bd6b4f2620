import WeightedCnf.BranchBound.Search
import WeightedCnf.State.Recount

-- The search tree by recursion over its height. A node is the list of the values that are decided so far,
-- and its clauses are looked up anew, without tallies and without a stack.

namespace WeightedCnf.BranchBound

structure Tour where
  incumbent : Option Incumbent
  stats : Stats Nat
deriving DecidableEq, Repr

def valuesOf (nVars : Nat) (decided : List Bool) : Array (Option Bool) :=
  (none :: (decided.map some ++ List.replicate (nVars - decided.length) none)).toArray

def completion (nVars : Nat) (decided : List Bool) : Assignment :=
  ⟨(decided ++ List.replicate (nVars - decided.length) false).toArray⟩

namespace Tour

def count (depth : Nat) (t : Tour) : Tour :=
  { t with stats := { t.stats with
    nodes := t.stats.nodes + 1, maxDepth := max t.stats.maxDepth depth } }

def pruneConflict (t : Tour) : Tour :=
  { t with stats := { t.stats with conflictPrunes := t.stats.conflictPrunes + 1 } }

def pruneBound (t : Tour) : Tour :=
  { t with stats := { t.stats with boundPrunes := t.stats.boundPrunes + 1 } }

def leaf (t : Tour) : Tour :=
  { t with stats := { t.stats with leaves := t.stats.leaves + 1 } }

def record (nVars : Nat) (decided : List Bool) (weight : Nat) (t : Tour) : Tour :=
  ⟨some ⟨weight, completion nVars decided⟩,
    { t.stats with trace := t.stats.trace.push ⟨weight, decided.length⟩ }⟩

-- The first satisfying completion is recorded, later ones only if they weigh more.
def consider (f : Formula) (decided : List Bool) (weight : Nat) (t : Tour) : Tour :=
  if improves t.incumbent weight && f.clauses.all (Clause.isTrue (valuesOf f.nVars decided)) then
    t.record f.nVars decided weight
  else t

def isBeaten (bound : Nat) (t : Tour) : Bool :=
  match t.incumbent with
  | none => false
  | some best => bound ≤ best.weight

end Tour

def walk (f : Formula) : Nat → List Bool → Nat → Nat → Tour → Tour
  | height, decided, remaining, current, t =>
    let t := t.count decided.length
    if f.clauses.any (Clause.isFalse (valuesOf f.nVars decided)) then t.pruneConflict
    else
      let t := t.consider f decided current
      if t.isBeaten (current + remaining) then t.pruneBound
      else match height with
        | 0 => t.leaf
        | height + 1 =>
          let weight := f.weights.getD (decided.length + 1) 0
          let t := walk f height (decided ++ [false]) (remaining - weight) current t
          walk f height (decided ++ [true]) (remaining - weight) (current + weight) t

def walkAll (f : Formula) : Tour :=
  walk f f.nVars [] (total f.weights.toList) 0 ⟨none, .empty⟩

end WeightedCnf.BranchBound
