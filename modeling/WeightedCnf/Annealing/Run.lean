import WeightedCnf.Annealing.Problem
import WeightedCnf.Annealing.Window

namespace WeightedCnf.Annealing

structure Limits where
  windowSize : Nat
  restarts : Nat
  threshold : Float
  maxSteps : Option UInt64

def Limits.default : Limits := ⟨100, 1, 1.0, some 100000⟩

inductive StopReason where
  | stagnation
  | signal
  | stepLimit
deriving DecidableEq, Repr

structure Restart where
  initialScore : Float
  finalScore : Float
  bestScore : Float
  initialTemperature : Float
  steps : UInt64
  accepted : UInt64
  taken : Array Float
  stopReason : StopReason

-- The best state so far; before any state its score is minus infinity.
structure Best (S : Type) where
  score : Float
  state : Option S

namespace Best

variable {S : Type}

def nothing : Best S := ⟨-(1.0 / 0.0), none⟩

def consider (best : Best S) (state : S) (score : Float) : Best S :=
  if best.score < score then ⟨score, some state⟩ else best

end Best

structure Walk (S : Type) where
  current : S
  score : Float
  temperature : Float
  window : Window
  steps : UInt64
  accepted : UInt64
  taken : Array Float
  bestScore : Float
  best : Best S

-- The records of the restarts so far, with their steps summed up in a word.
structure Stats where
  restarts : Array Restart
  totalSteps : UInt64

def Stats.empty : Stats := ⟨#[], 0⟩

def Stats.push (s : Stats) (record : Restart) : Stats :=
  ⟨s.restarts.push record, s.totalSteps + record.steps⟩

structure Outcome (S : Type) extends Stats where
  best : Best S

section

variable {σ S : Type} [WordSource σ]

-- A larger score is taken without a draw, any other one with probability
-- `exp ((next - current) / temperature)`.
def accept (current next temperature : Float) : Draw σ Bool :=
  if current < next then pure true
  else do
    let p := ((next - current) / temperature).exp
    return (← Draw.unit) < p

namespace Walk

def moveTo (w : Walk S) (state : S) (score : Float) : Walk S :=
  { w with
    current := state, score, accepted := w.accepted + 1, taken := w.taken.push score
    bestScore := if w.bestScore < score then score else w.bestScore
    best := w.best.consider state score }

def settle (cool : Float → Float) (w : Walk S) : Walk S :=
  { w with window := w.window.push w.score, temperature := cool w.temperature }

def step (p : Problem σ S) (threshold : Float) (w : Walk S) : Draw σ (Walk S × Option StopReason) := do
  let proposal ← p.propose w.current
  let score ← p.evaluate proposal.state
  let taken ← accept w.score score w.temperature
  let w := { w with steps := w.steps + 1 }
  let w := (if taken then w.moveTo proposal.state score else w).settle p.cool
  return (w,
    if proposal.stop then some .signal
    else if w.window.isStagnant threshold then some .stagnation
    else none)

def isExhausted (maxSteps : Option UInt64) (w : Walk S) : Bool :=
  match maxSteps with
  | none => false
  | some max => max ≤ w.steps

-- Steps until the restart ends. It need not end, so it faults when its allowance is used up.
def run (p : Problem σ S) (limits : Limits) : Nat → Walk S → Draw σ (Walk S × StopReason)
  | 0, _ => throw .outOfFuel
  | fuel + 1, w =>
    if w.isExhausted limits.maxSteps then pure (w, .stepLimit)
    else do
      match ← w.step p limits.threshold with
      | (w, some reason) => return (w, reason)
      | (w, none) => run p limits fuel w

def start (p : Problem σ S) (limits : Limits) (best : Best S) : Draw σ (Walk S) := do
  let current ← p.start
  let score ← p.evaluate current
  let temperature ← p.startTemperature
  let window ← Window.empty limits.windowSize
  return ⟨current, score, temperature, window, 0, 0, #[], score, best.consider current score⟩

end Walk

def restart (p : Problem σ S) (limits : Limits) (fuel : Nat) (best : Best S) :
    Draw σ (Best S × Restart) := do
  let first ← Walk.start p limits best
  let (last, reason) ← first.run p limits fuel
  return (last.best,
    ⟨first.score, last.score, last.bestScore, first.temperature, last.steps, last.accepted, last.taken,
      reason⟩)

def restarts (p : Problem σ S) (limits : Limits) (fuel : Nat) :
    Nat → Outcome S → Draw σ (Outcome S)
  | 0, o => pure o
  | count + 1, o => do
    let (best, record) ← restart p limits fuel o.best
    restarts p limits fuel count ⟨o.push record, best⟩

def run (p : Problem σ S) (limits : Limits) (fuel : Nat) : Draw σ (Outcome S) :=
  restarts p limits fuel limits.restarts ⟨.empty, .nothing⟩

end

end WeightedCnf.Annealing
