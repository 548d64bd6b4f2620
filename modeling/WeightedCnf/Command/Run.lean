import WeightedCnf.Command.Report
import WeightedCnf.Formula.Reader
import WeightedCnf.Text.Quoted

namespace WeightedCnf.Command

open LocalSearch

structure Environment (m : Type → Type) (σ : Type) where
  read : String → m (Except FileError ByteArray)
  write : String → String → m (Except FileError Unit)
  -- The random source of a seed, and the one of a run that was given no seed.
  seeded : UInt64 → σ
  unseeded : m σ
  -- The number of steps that a restart can make.
  allowance : Nat

inductive Output where
  | lines (ls : List String)
  | answer (ls : List String)
  | report (r : Report)

inductive Failure where
  | error (cause : Error)
  | plainFile (cause : FileError)
  | readingSettings (path : String)
  | parsingSettings (path : String)
  | falsified (count numClauses : Nat)

-- A computation that gave up has no message, and ends the program with a code of its own.
def Failure.message? : Failure → Option String
  | error (.fault _) => none
  | error cause => some cause.message
  | plainFile cause => some cause.message
  | readingSettings path => some ("reading " ++ path)
  | parsingSettings path => some ("parsing " ++ path)
  | falsified count numClauses => some s!"model falsifies {count} of {numClauses} clauses"

def Failure.exitCode : Failure → Nat
  | error (.fault _) => 101
  | _ => 1

structure Outcome where
  output : Output
  failure : Option Failure
  log : List LogEntry

def Outcome.message? (o : Outcome) : Option String := o.failure.bind Failure.message?

def Outcome.exitCode (o : Outcome) : Nat :=
  match o.failure with
  | some failure => failure.exitCode
  | none => 0

-- A command that logs as it goes and may fail. What was logged before a failure stays.
abbrev Action (m : Type → Type) (α : Type) := ExceptT Failure (StateT (List LogEntry) m) α

section

variable {m : Type → Type} [Monad m] {σ : Type}

def log (entries : List LogEntry) : Action m Unit := modify (· ++ entries)

def orFail (r : Except Error α) : Action m α :=
  match r with
  | .ok a => pure a
  | .error cause => throw (.error cause)

def orFault (r : Except Fault α) : Action m α :=
  match r with
  | .ok a => pure a
  | .error cause => throw (.error (.fault cause))

def readFormula (env : Environment m σ) (path : String) : Action m Formula := do
  let bytes ← orFail ((← env.read path).mapError .file)
  let f ← orFail (Formula.ofBytes bytes)
  log [logParsed f]
  return f

def readSettings (env : Environment m σ) (config : Option String) : Action m Settings :=
  match config with
  | none => pure .default
  | some path => do
    match ← env.read path with
    | .error _ => throw (.readingSettings path)
    | .ok bytes =>
      match String.fromUTF8? bytes with
      | none => throw (.readingSettings path)
      | some text =>
        match Settings.restore text with
        | .ok settings => return settings
        | .error _ => throw (.parsingSettings path)

def override (o : SolveOptions) (s : Settings) : Settings where
  windowSize := o.windowSize.getD s.windowSize
  restarts := o.restarts.getD s.restarts
  alpha := o.alpha.getD s.alpha
  beta := o.beta.getD s.beta
  probability := o.probability.getD s.probability
  samples := o.samples.getD s.samples
  threshold := o.threshold.getD s.threshold
  maxSteps := o.maxSteps <|> s.maxSteps
  start := o.start.getD s.start
  move := o.move.getD s.move
  seed := o.seed <|> s.seed

def solveExactly (f : Formula) : Action m Report := do
  log [logSearchStart f]
  let outcome ← orFault (BranchBound.solve f)
  log (logSearch outcome)
  return .ofSearch f outcome

def solveByAnnealing [WordSource σ] (env : Environment m σ) (options : SolveOptions) (f : Formula) :
    Action m Report := do
  let settings := override options (← readSettings env options.config)
  orFail settings.validate
  log [logSettings settings]
  let solver ← orFail (Solver.prepare f settings)
  let source ← match settings.seed with
    | some seed => pure (env.seeded seed.toUInt64)
    | none => env.unseeded
  log [logAnnealingStart f settings.restarts]
  let (result, _) ← orFault (solver.runWithin env.allowance source)
  log (logAnnealing result)
  return .ofAnnealing f result

def solve [WordSource σ] (env : Environment m σ) (input : String) (options : SolveOptions) :
    Action m Output := do
  log [⟨.info, "Loading problem from " ++ Text.quoted input⟩]
  let f ← readFormula env input
  log [⟨.info, s!"Problem: {f.nVars} variables, {f.numClauses} clauses"⟩]
  let report ← match options.method.getD .branchBound with
    | .branchBound => solveExactly f
    | .annealing => solveByAnnealing env options f
  if let (some path, some solution) := (options.output, report.solution) then
    match ← env.write path (Model.line solution.assignment ++ "\n") with
    | .ok _ => pure ()
    | .error cause => throw (.plainFile cause)
  return if options.json then .report report else .answer report.lines

-- Reads the model of a command. A file that cannot be opened is reported without its kind.
def readModel (env : Environment m σ) (path : String) (nVars : Nat) : Action m Assignment := do
  match ← env.read path with
  | .error .isDirectory => throw (.error (.file .isDirectory))
  | .error cause => throw (.plainFile cause)
  | .ok bytes => orFail (Model.ofBytes nVars bytes)

def firstFalsified (f : Formula) (a : Assignment) : Except Fault (Option (Clause × Nat)) :=
  f.clauses.zipIdx.findM? fun (clause, _) => return !(← clause.isSatisfiedBy a)

def judge (f : Formula) (a : Assignment) :
    Except Fault (List String × List LogEntry × Option Failure) := do
  let satisfied ← f.countSatisfied a
  let weight ← f.weightOf a
  let head := [s!"c {satisfied}/{f.numClauses} clauses satisfied", s!"o {weight}"]
  if satisfied = f.numClauses then return (head ++ ["s SATISFIED"], [], none)
  else
    let entries := match ← firstFalsified f a with
      | some (clause, position) =>
        let shown := clause.text
        [⟨.info, s!"First falsified clause: {position} ({shown})"⟩]
      | none => []
    return (head ++ ["s NOT SATISFIED"], entries,
      some (.falsified (f.numClauses - satisfied) f.numClauses))

def verify (env : Environment m σ) (input model : String) :
    Action m (List String × Option Failure) := do
  let f ← readFormula env input
  let a ← readModel env model f.nVars
  let (lines, entries, failure) ← orFault (judge f a)
  log entries
  return (lines, failure)

def perform [WordSource σ] (env : Environment m σ) (verbosity : Nat) (request : Request) :
    m Outcome := do
  let action : Action m (Output × Option Failure) := match request with
    | .solve input options => return (← solve env input options, none)
    | .verify input model => do
      let (lines, failure) ← verify env input model
      return (.lines lines, failure)
  match ← action.run.run [] with
  | (.ok (output, failure), entries) => return ⟨output, failure, visible verbosity entries⟩
  | (.error failure, entries) => return ⟨.lines [], some failure, visible verbosity entries⟩

end

def versionLine : String := "weightsat 0.1.0"

def helpLines : List String :=
  ["Usage: weightsat [-v...] solve INPUT [-m bnb|anneal] [-o FILE] [--json] [--config FILE]",
    "           [--seed N] [--restarts N] [--iter-limit N] [--max-steps N] [--alpha X] [--beta X]",
    "           [--temp-prob X] [--temperature-samples N] [--stagnation-threshold X]",
    "           [--init NAME] [--neighborhood NAME]",
    "       weightsat [-v...] verify INPUT MODEL"]

def run {m : Type → Type} [Monad m] {σ : Type} [WordSource σ] (env : Environment m σ)
    (args : List String) : m (Option Outcome) :=
  match parse 0 args with
  | .ok (verbosity, request) => return some (← perform env verbosity request)
  | .error .usage => return none
  | .error .help => return some ⟨.lines helpLines, none, []⟩
  | .error .version => return some ⟨.lines [versionLine], none, []⟩

end WeightedCnf.Command
