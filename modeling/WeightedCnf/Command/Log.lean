import WeightedCnf.BranchBound.Search
import WeightedCnf.LocalSearch.Solver

namespace WeightedCnf.Command

open LocalSearch

inductive Level where
  | info
  | debug
  | trace
deriving DecidableEq, Repr

-- How often the verbosity option must be given for a level to be shown.
def Level.rank : Level → Nat
  | info => 1
  | debug => 2
  | trace => 3

def Level.name : Level → String
  | info => "INFO"
  | debug => "DEBUG"
  | trace => "TRACE"

structure LogEntry where
  level : Level
  message : String
deriving DecidableEq, Repr

def visible (verbosity : Nat) (entries : List LogEntry) : List LogEntry :=
  entries.filter (·.level.rank ≤ verbosity)

def logParsed (f : Formula) : LogEntry :=
  ⟨.debug, s!"Parsed weighted DIMACS: {f.nVars} vars, {f.numClauses} clauses"⟩

def logSearchStart (f : Formula) : LogEntry :=
  ⟨.info, s!"Branch and bound: {f.nVars} vars, {f.numClauses} clauses"⟩

def logSearch (o : BranchBound.Outcome) : List LogEntry :=
  let improvement (i : BranchBound.Improvement) : LogEntry :=
    ⟨.debug, s!"New incumbent with weight {i.weight} at depth {i.depth}"⟩
  let verdict := match o.bestWeight with
    | some weight => s!"Optimum weight {weight} after {o.stats.nodes} nodes"
    | none => s!"No satisfying assignment after {o.stats.nodes} nodes"
  o.stats.trace.toList.map improvement ++ [⟨.info, verdict⟩]

def stopName : Annealing.StopReason → String
  | .stagnation => "Stagnation"
  | .signal => "Signal"
  | .stepLimit => "StepLimit"

def startTag : StartRule → String
  | .allFalse => "AllFalse"
  | .allTrue => "AllTrue"
  | .random => "Random"
  | .greedy => "Greedy"

def moveTag : MoveRule → String
  | .random => "Random"
  | .greedy => "Greedy"
  | .greediest => "Greediest"
  | .walksat => "WalkSat"

def optionText : Option Nat → String
  | none => "None"
  | some n => "Some(" ++ toString n ++ ")"

def logSettings (s : Settings) : LogEntry :=
  let values := [toString s.windowSize, toString s.restarts, Decimal.marked s.alpha,
    Decimal.marked s.beta, Decimal.marked s.probability, toString s.samples,
    Decimal.marked s.threshold, optionText s.maxSteps, startTag s.start, moveTag s.move,
    optionText s.seed]
  let fields := (Settings.names.zip values).map fun (name, value) => name ++ ": " ++ value
  ⟨.debug, "Annealing config: AnnealingConfig \x7b " ++ String.intercalate ", " fields ++ " \x7d"⟩

def logRestart (r : Annealing.Restart) (number : Nat) : List LogEntry :=
  let first := Decimal.plain r.initialScore
  let best := Decimal.plain r.bestScore
  let reason := stopName r.stopReason
  r.taken.toList.map (fun score => ⟨.trace, "Accepted move to score " ++ Decimal.plain score⟩)
    ++ [⟨.debug, s!"Restart {number}: initial {first} -> best {best} in {r.steps} iterations ({reason})"⟩]

def logAnnealingStart (f : Formula) (restarts : Nat) : LogEntry :=
  ⟨.info, s!"Simulated annealing: {f.nVars} vars, {f.numClauses} clauses, {restarts} restarts"⟩

def logAnnealing (r : LocalSearch.Result) : List LogEntry :=
  let s := r.solution
  (r.stats.restarts.toList.zipIdx.flatMap fun (record, number) => logRestart record number)
    ++ [⟨.info, s!"Best score {r.score}: weight {s.weight}, {s.satisfied}/{s.numClauses} clauses satisfied"⟩]

end WeightedCnf.Command
