import WeightedCnf.Decimal.Reader
import WeightedCnf.LocalSearch.Settings
import WeightedCnf.Text.Integer

-- Arguments are taken from left to right. A value stands behind an equals sign, or it is the next argument
-- and does not look like an option. Every option may be given once; after a bare double dash nothing is one.

namespace WeightedCnf.Command

open LocalSearch

inductive Method where
  | branchBound
  | annealing
deriving DecidableEq, Repr

def Method.name : Method → String
  | branchBound => "bnb"
  | annealing => "anneal"

def Method.ofName? (s : String) : Option Method :=
  [branchBound, annealing].find? (·.name == s)

structure SolveOptions where
  input : Option String
  method : Option Method
  output : Option String
  json : Bool
  config : Option String
  seed : Option Nat
  restarts : Option Nat
  windowSize : Option Nat
  maxSteps : Option Nat
  alpha : Option Float
  beta : Option Float
  probability : Option Float
  samples : Option Nat
  threshold : Option Float
  start : Option StartRule
  move : Option MoveRule

def SolveOptions.empty : SolveOptions :=
  ⟨none, none, none, false, none, none, none, none, none, none, none, none, none, none, none, none⟩

inductive Request where
  | solve (input : String) (options : SolveOptions)
  | verify (input model : String)

inductive Ending where
  | usage
  | help
  | version
deriving DecidableEq, Repr

inductive Shape where
  | escape
  | long (name : String) (value : Option String)
  | short (letter : Char) (more : List Char)
  | plain
deriving DecidableEq, Repr

def splitValue (cs : List Char) : String × Option String :=
  match cs.span (· != '=') with
  | (name, _ :: value) => (String.ofList name, some (String.ofList value))
  | (name, []) => (String.ofList name, none)

def Shape.of (arg : String) : Shape :=
  match arg.toList with
  | ['-', '-'] => .escape
  | '-' :: '-' :: cs =>
    let (name, value) := splitValue cs
    .long name value
  | '-' :: letter :: more => .short letter more
  | _ => .plain

inductive Key where
  | method | output | config | seed | restarts | windowSize | maxSteps | alpha | beta | probability
  | samples | threshold | start | move
deriving DecidableEq, Repr

namespace Key

def ofLong? : String → Option Key
  | "method" => some method
  | "output" => some output
  | "config" => some config
  | "seed" => some seed
  | "restarts" => some restarts
  | "iter-limit" => some windowSize
  | "max-steps" => some maxSteps
  | "alpha" => some alpha
  | "beta" => some beta
  | "temp-prob" => some probability
  | "temperature-samples" => some samples
  | "stagnation-threshold" => some threshold
  | "init" => some start
  | "neighborhood" => some move
  | _ => none

def ofShort? : Char → Option Key
  | 'm' => some method
  | 'o' => some output
  | _ => none

end Key

def fill (slot value : Option α) : Except Ending (Option α) :=
  match slot, value with
  | none, some v => .ok (some v)
  | _, _ => .error .usage

def path? (s : String) : Option String := if s.isEmpty then none else some s

def natural? (s : String) : Option Nat := Text.nat64? s.toList

def real? (s : String) : Option Float := Decimal.float? s.toList

namespace SolveOptions

def set (o : SolveOptions) (key : Key) (value : String) : Except Ending SolveOptions :=
  match key with
  | .method => return { o with method := ← fill o.method (Method.ofName? value) }
  | .output => return { o with output := ← fill o.output (path? value) }
  | .config => return { o with config := ← fill o.config (path? value) }
  | .seed => return { o with seed := ← fill o.seed (natural? value) }
  | .restarts => return { o with restarts := ← fill o.restarts (natural? value) }
  | .windowSize => return { o with windowSize := ← fill o.windowSize (natural? value) }
  | .maxSteps => return { o with maxSteps := ← fill o.maxSteps (natural? value) }
  | .alpha => return { o with alpha := ← fill o.alpha (real? value) }
  | .beta => return { o with beta := ← fill o.beta (real? value) }
  | .probability => return { o with probability := ← fill o.probability (real? value) }
  | .samples => return { o with samples := ← fill o.samples (natural? value) }
  | .threshold => return { o with threshold := ← fill o.threshold (real? value) }
  | .start => return { o with start := ← fill o.start (StartRule.ofName? value) }
  | .move => return { o with move := ← fill o.move (MoveRule.ofName? value) }

def setInput (o : SolveOptions) (value : String) : Except Ending SolveOptions :=
  return { o with input := ← fill o.input (path? value) }

def setJson (o : SolveOptions) : Except Ending SolveOptions :=
  if o.json then .error .usage else .ok { o with json := true }

-- The value of a short option: the characters behind its letter, an equals sign in front dropped.
def attached? : List Char → Option String
  | [] => none
  | '=' :: more => some (String.ofList more)
  | more => some (String.ofList more)

inductive Part where
  | rest
  | json
  | input
  | option (key : Key) (value : Option String)

def partOf (arg : String) : Except Ending Part :=
  match Shape.of arg with
  | .escape => .ok .rest
  | .plain => .ok .input
  | .long "help" none => .error .help
  | .long "json" none => .ok .json
  | .long name value =>
    match Key.ofLong? name with
    | some key => .ok (.option key value)
    | none => .error .usage
  | .short 'h' _ => .error .help
  | .short letter more =>
    match Key.ofShort? letter with
    | some key => .ok (.option key (attached? more))
    | none => .error .usage

def parse (o : SolveOptions) : List String → Except Ending SolveOptions
  | [] => .ok o
  | arg :: rest =>
    match partOf arg with
    | .error ending => .error ending
    | .ok .rest => rest.foldlM setInput o
    | .ok .json => do (← o.setJson).parse rest
    | .ok .input => do (← o.setInput arg).parse rest
    | .ok (.option key (some value)) => do (← o.set key value).parse rest
    | .ok (.option key none) =>
      match rest with
      | [] => .error .usage
      | value :: rest =>
        if Shape.of value = .plain then do (← o.set key value).parse rest else .error .usage

end SolveOptions

-- A command that takes two file names refuses a third one, and one that is empty, where it stands.
def addName (names : List String) (name : String) : Except Ending (List String) :=
  if names.length < 2 && !name.isEmpty then .ok (names ++ [name]) else .error .usage

def parseNames (names : List String) : List String → Except Ending (List String)
  | [] => .ok names
  | arg :: rest =>
    match Shape.of arg with
    | .escape => rest.foldlM addName names
    | .plain => do parseNames (← addName names arg) rest
    | .long "help" none => .error .help
    | .short 'h' _ => .error .help
    | _ => .error .usage

def parseCluster : List Char → Except Ending Nat
  | [] => .ok 0
  | 'v' :: more => return (← parseCluster more) + 1
  | 'V' :: _ => .error .version
  | 'h' :: _ => .error .help
  | _ => .error .usage

def parseCommand (command : String) (args : List String) : Except Ending Request :=
  match command with
  | "solve" => do
    let options ← SolveOptions.empty.parse args
    match options.input with
    | some input => return .solve input options
    | none => throw .usage
  | "verify" => do
    match ← parseNames [] args with
    | [input, model] => return .verify input model
    | _ => throw .usage
  | "help" =>
    match args with
    | [] => .error .help
    | ["solve"] => .error .help
    | ["verify"] => .error .help
    | ["help"] => .error .help
    | _ => .error .usage
  | _ => .error .usage

def parse (verbosity : Nat) : List String → Except Ending (Nat × Request)
  | [] => .error .usage
  | arg :: rest =>
    match Shape.of arg with
    | .escape => .error .usage
    | .plain => return (verbosity, ← parseCommand arg rest)
    | .long "verbose" none => parse (verbosity + 1) rest
    | .long "version" none => .error .version
    | .long "help" none => .error .help
    | .long _ _ => .error .usage
    | .short letter more => do parse (verbosity + (← parseCluster (letter :: more))) rest

end WeightedCnf.Command
