import WeightedCnf.Command.Request
import WeightedCnf.Command.Log
import WeightedCnf.Json.Printer
import WeightedCnf.Model

namespace WeightedCnf.Command

inductive Status where
  | optimum
  | unsatisfiable
  | satisfiable
  | unknown
deriving DecidableEq, Repr

def Status.text : Status → String
  | optimum => "OPTIMUM FOUND"
  | unsatisfiable => "UNSATISFIABLE"
  | satisfiable => "SATISFIABLE"
  | unknown => "UNKNOWN"

inductive Figures where
  | search (bestWeight : Option Nat) (stats : BranchBound.Stats UInt64)
  | annealing (stats : Annealing.Stats)

structure Report where
  method : Method
  status : Status
  solution : Option Solution
  numClauses : Nat
  figures : Figures

def Report.ofSearch (f : Formula) (o : BranchBound.Outcome) : Report :=
  ⟨.branchBound, if o.solution.isSome then .optimum else .unsatisfiable, o.solution, f.numClauses,
    .search o.bestWeight o.stats⟩

def Report.ofAnnealing (f : Formula) (r : LocalSearch.Result) : Report :=
  ⟨.annealing, if r.solution.isSatisfying then .satisfiable else .unknown, some r.solution,
    f.numClauses, .annealing r.stats⟩

def Report.lines (r : Report) : List String :=
  ("s " ++ r.status.text) ::
    match r.solution with
    | none => []
    | some s => [s!"o {s.weight}", Model.line s.assignment]

def orNull (f : α → Json) : Option α → Json
  | some x => f x
  | none => .null

def reasonName : Annealing.StopReason → String
  | .stagnation => "stagnation"
  | .signal => "signal"
  | .stepLimit => "step-limit"

def ofWord (n : UInt64) : Json := .ofNat n.toNat

def restartJson (r : Annealing.Restart) : Json :=
  .ofFields [("accepted", ofWord r.accepted), ("best_score", .ofFloat r.bestScore),
    ("final_score", .ofFloat r.finalScore), ("initial_score", .ofFloat r.initialScore),
    ("initial_temperature", .ofFloat r.initialTemperature), ("iterations", ofWord r.steps),
    ("stop_reason", .ofText (reasonName r.stopReason))]

def Figures.toJson : Figures → Json
  | search bestWeight s =>
    .ofFields [("best_weight", orNull .ofNat bestWeight), ("bound_prunes", ofWord s.boundPrunes),
      ("conflict_prunes", ofWord s.conflictPrunes),
      ("incumbent_trace", .array (s.weights.map .ofNat)), ("leaves", ofWord s.leaves),
      ("max_depth", .ofNat s.maxDepth), ("nodes", ofWord s.nodes)]
  | annealing s =>
    .ofFields [("restarts", .array (s.restarts.toList.map restartJson)),
      ("total_iterations", ofWord s.totalSteps)]

def Report.toJson (r : Report) (seconds : Float) : Json :=
  .ofFields [("method", .ofText r.method.name), ("status", .ofText r.status.text),
    ("weight", orNull (.ofNat ·.weight) r.solution),
    ("satisfied_clauses", orNull (.ofNat ·.satisfied) r.solution),
    ("num_clauses", .ofNat r.numClauses),
    ("model", orNull (fun s => .array (s.assignment.toInts.map .ofInt)) r.solution),
    ("elapsed_secs", .ofFloat seconds), ("stats", r.figures.toJson)]

end WeightedCnf.Command
