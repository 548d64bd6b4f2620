import WeightedCnf.State
import WeightedCnf.Solution

-- Variables are decided in ascending order, false before true. The open nodes are frames on a stack, and
-- every step lowers the cost of the stack, so the walk ends.

namespace WeightedCnf.BranchBound

inductive Stage where
  | enter
  | tryFalse
  | tryTrue
  | leave
deriving DecidableEq, Repr

structure Frame where
  var : Nat
  remaining : Nat
  current : Nat
  stage : Stage
deriving DecidableEq, Repr

structure Improvement where
  weight : Nat
  depth : Nat
deriving DecidableEq, Repr

-- The counters of a search are words, which wrap around. The same search can count in natural numbers,
-- which tells how often it did what its words count.
structure Stats (N : Type) where
  nodes : N
  conflictPrunes : N
  boundPrunes : N
  leaves : N
  maxDepth : Nat
  trace : Array Improvement
deriving DecidableEq, Repr

def Stats.empty {N : Type} [OfNat N 0] : Stats N := ⟨0, 0, 0, 0, 0, #[]⟩

def Stats.weights {N : Type} (s : Stats N) : List Nat := s.trace.toList.map (·.weight)

structure Incumbent where
  weight : Nat
  assignment : Assignment
deriving DecidableEq, Repr

structure Search (N : Type) where
  stack : List Frame
  state : State
  incumbent : Option Incumbent
  stats : Stats N
deriving DecidableEq, Repr

def improves (incumbent : Option Incumbent) (weight : Nat) : Bool :=
  match incumbent with
  | none => true
  | some best => best.weight < weight

-- Even with all open variables true the node cannot beat the incumbent.
def isHopeless (incumbent : Option Incumbent) (frame : Frame) : Except Fault Bool :=
  match incumbent with
  | none => .ok false
  | some best => return (← add64 frame.current frame.remaining) ≤ best.weight

section Steps
variable {N : Type} [OfNat N 1] [Add N]

def proceed (nVars : Nat) (frame : Frame) (below : List Frame) (state : State)
    (incumbent : Option Incumbent) (stats : Stats N) : Except Fault (Search N) :=
  match isHopeless incumbent frame with
  | .error cause => .error cause
  | .ok true => .ok ⟨below, state, incumbent, { stats with boundPrunes := stats.boundPrunes + 1 }⟩
  | .ok false =>
    if nVars < frame.var then
      .ok ⟨below, state, incumbent, { stats with leaves := stats.leaves + 1 }⟩
    else .ok ⟨{ frame with stage := .tryFalse } :: below, state, incumbent, stats⟩

def enter (nVars : Nat) (frame : Frame) (below : List Frame) (s : Search N) :
    Except Fault (Search N) :=
  let stats := { s.stats with
    nodes := s.stats.nodes + 1, maxDepth := max s.stats.maxDepth (frame.var - 1) }
  if s.state.hasConflict then
    .ok { s with stack := below, stats := { stats with conflictPrunes := stats.conflictPrunes + 1 } }
  else if improves s.incumbent frame.current && s.state.isSatisfied then
    proceed nVars frame below s.state (some ⟨frame.current, s.state.toAssignment⟩)
      { stats with trace := stats.trace.push ⟨frame.current, frame.var - 1⟩ }
  else proceed nVars frame below s.state s.incumbent stats

def child (index : Occurrences) (frame : Frame) (value : Bool) : Except Fault Frame := do
  let weight ← index.weight frame.var
  let remaining ← subtract frame.remaining weight
  let current ← (if value then add64 frame.current weight else .ok frame.current)
  return ⟨frame.var + 1, remaining, current, .enter⟩

def advance (nVars : Nat) (index : Occurrences) (frame : Frame) (below : List Frame) (s : Search N) :
    Except Fault (Search N) :=
  match frame.stage with
  | .enter => enter nVars frame below s
  | .tryFalse => do
    let next ← child index frame false
    let state ← s.state.assign index frame.var false
    return { s with stack := next :: { frame with stage := .tryTrue } :: below, state }
  | .tryTrue => do
    let next ← child index frame true
    let state ← s.state.unassign index frame.var
    let state ← state.assign index frame.var true
    return { s with stack := next :: { frame with stage := .leave } :: below, state }
  | .leave => do
    let state ← s.state.unassign index frame.var
    return { s with stack := below, state }

def fullCost : Nat → Nat
  | 0 => 1
  | height + 1 => 4 + 2 * fullCost height

def Frame.cost (nVars : Nat) (frame : Frame) : Nat :=
  let height := nVars + 1 - frame.var
  match frame.stage with
  | .enter => fullCost height
  | .tryFalse => 3 + 2 * fullCost (height - 1)
  | .tryTrue => 2 + fullCost (height - 1)
  | .leave => 1

def cost (nVars : Nat) (stack : List Frame) : Nat := total (stack.map (Frame.cost nVars))

theorem fullCost_pos (height : Nat) : 0 < fullCost height := by
  cases height
  · decide
  · simp only [fullCost]; omega

theorem child_eq_ok {index : Occurrences} {frame next : Frame} {value : Bool}
    (h : child index frame value = .ok next) : next.var = frame.var + 1 ∧ next.stage = .enter := by
  simp only [child, bind_eq_ok_iff] at h
  obtain ⟨_, _, _, _, _, _, eq⟩ := h
  cases eq
  exact ⟨rfl, rfl⟩

theorem proceed_cost_lt {nVars : Nat} {frame : Frame} {below : List Frame} {state : State}
    {incumbent : Option Incumbent} {stats : Stats N} {t : Search N} (stage : frame.stage = .enter)
    (h : proceed nVars frame below state incumbent stats = .ok t) :
    cost nVars t.stack < cost nVars (frame :: below) := by
  have left : cost nVars below < cost nVars (frame :: below) := by
    simp [cost, total, Frame.cost, stage, fullCost_pos]
  unfold proceed at h
  split at h
  · cases h
  · cases h; exact left
  · split at h
    · cases h; exact left
    · rename_i inside
      cases h
      obtain ⟨height, eq⟩ : ∃ height, nVars + 1 - frame.var = height + 1 :=
        ⟨nVars - frame.var, by omega⟩
      simp [cost, total, Frame.cost, stage, eq, fullCost]

theorem enter_cost_lt {nVars : Nat} {frame : Frame} {below : List Frame} {s t : Search N}
    (stage : frame.stage = .enter) (h : enter nVars frame below s = .ok t) :
    cost nVars t.stack < cost nVars (frame :: below) := by
  unfold enter at h
  simp only at h
  split at h
  · cases h
    simp [cost, total, Frame.cost, stage, fullCost_pos]
  · split at h
    · exact proceed_cost_lt stage h
    · exact proceed_cost_lt stage h

theorem advance_cost_lt {nVars : Nat} {index : Occurrences} {frame : Frame} {below : List Frame}
    {s t : Search N} (h : advance nVars index frame below s = .ok t) :
    cost nVars t.stack < cost nVars (frame :: below) := by
  have shorter : nVars + 1 - (frame.var + 1) = nVars + 1 - frame.var - 1 := by omega
  unfold advance at h
  split at h
  · rename_i stage
    exact enter_cost_lt stage h
  · rename_i stage
    simp only [bind_eq_ok_iff] at h
    obtain ⟨next, made, _, _, eq⟩ := h
    cases eq
    obtain ⟨var, enters⟩ := child_eq_ok made
    simp only [cost, List.map_cons, total, Frame.cost, stage, var, enters, shorter]
    omega
  · rename_i stage
    simp only [bind_eq_ok_iff] at h
    obtain ⟨next, made, _, _, _, _, eq⟩ := h
    cases eq
    obtain ⟨var, enters⟩ := child_eq_ok made
    simp only [cost, List.map_cons, total, Frame.cost, stage, var, enters, shorter]
    omega
  · rename_i stage
    simp only [bind_eq_ok_iff] at h
    obtain ⟨_, _, eq⟩ := h
    cases eq
    simp [cost, total, Frame.cost, stage]

def run (nVars : Nat) (index : Occurrences) (s : Search N) : Except Fault (Search N) :=
  match nodes : s.stack with
  | [] => .ok s
  | frame :: below =>
    match step : advance nVars index frame below s with
    | .error cause => .error cause
    | .ok next =>
      have : cost nVars next.stack < cost nVars s.stack := nodes ▸ advance_cost_lt step
      run nVars index next
termination_by cost nVars s.stack

end Steps

def Search.start {N : Type} [OfNat N 0] (index : Occurrences) (totalWeight : Nat) : Search N :=
  ⟨[⟨1, totalWeight, 0, .enter⟩], .fresh index, none, .empty⟩

structure Outcome where
  solution : Option Solution
  bestWeight : Option Nat
  stats : Stats UInt64
deriving DecidableEq, Repr

def solveWith (f : Formula) (index : Occurrences) : Except Fault Outcome := do
  let final ← run f.nVars index (.start index (← f.totalWeight))
  match final.incumbent with
  | none => return ⟨none, none, final.stats⟩
  | some best => return ⟨some (← Solution.evaluate f best.assignment), some best.weight, final.stats⟩

def solve (f : Formula) : Except Fault Outcome := do
  solveWith f (← Occurrences.ofFormula f)

end WeightedCnf.BranchBound
