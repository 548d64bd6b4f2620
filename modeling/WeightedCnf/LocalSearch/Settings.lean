import WeightedCnf.Annealing.Run
import WeightedCnf.Decimal.Layout
import WeightedCnf.Json.Decode
import WeightedCnf.LocalSearch.Temperature

namespace WeightedCnf.LocalSearch

structure Settings where
  windowSize : Nat
  restarts : Nat
  alpha : Float
  beta : Float
  probability : Float
  samples : Nat
  threshold : Float
  maxSteps : Option Nat
  start : StartRule
  move : MoveRule
  seed : Option Nat

namespace Settings

def default : Settings :=
  ⟨100, 1, 0.99, 0.0, 0.5, 100, 1.0, some 100000, .random, .walksat, none⟩

-- Sets both rules by name; the name of the start rule is looked at first.
def withRules (s : Settings) (start move : String) : Except Error Settings := do
  let start ← StartRule.ofName start
  let move ← MoveRule.ofName move
  return { s with start, move }

def withSeed (s : Settings) (seed : Nat) : Settings := { s with seed := some seed }

def requirePositive (name : String) (n : Nat) : Except Error Unit :=
  if n = 0 then .error (.settings (.zero name)) else .ok ()

def requireRange (name range : String) (x : Float) (inside : Bool) : Except Error Unit :=
  if inside then .ok () else .error (.settings (.outside name range (Decimal.plain x)))

def validate (s : Settings) : Except Error Unit := do
  requirePositive "iter_limit" s.windowSize
  requirePositive "restart_limit" s.restarts
  requireRange "alpha" "in (0, 1]" s.alpha (0.0 < s.alpha && s.alpha ≤ 1.0)
  requireRange "beta" "finite and non-negative" s.beta (s.beta.isFinite && 0.0 ≤ s.beta)
  requireRange "temp_prob" "in (0, 1)" s.probability (0.0 < s.probability && s.probability < 1.0)
  requirePositive "temperature_samples" s.samples
  requireRange "stagnation_threshold" "finite and non-negative" s.threshold
    (s.threshold.isFinite && 0.0 ≤ s.threshold)
  requirePositive "max_steps" (s.maxSteps.getD 1)

def limits (s : Settings) : Annealing.Limits :=
  ⟨s.windowSize, s.restarts, s.threshold, s.maxSteps.map Nat.toUInt64⟩

def cooling (s : Settings) : Cooling := ⟨s.alpha, s.beta⟩

def plan (s : Settings) : Plan := ⟨s.start, s.move, s.cooling, s.probability, s.samples⟩

def names : List String :=
  ["iter_limit", "restart_limit", "alpha", "beta", "temp_prob", "temperature_samples",
    "stagnation_threshold", "max_steps", "init", "neighborhood", "seed"]

-- A setting that is not there keeps its default.
def field? (fallback : α) (read? : Json → Option α) (j : Option Json) : Option α :=
  match j with
  | none => some fallback
  | some j => read? j

def ofJson? (j : Json) : Option Settings := do
  let d := default
  match ← j.record? names true with
  | [windowSize, restarts, alpha, beta, probability, samples, threshold, maxSteps, start, move, seed] =>
    return {
      windowSize := ← field? d.windowSize Json.nat64? windowSize
      restarts := ← field? d.restarts Json.nat64? restarts
      alpha := ← field? d.alpha Json.float? alpha
      beta := ← field? d.beta Json.float? beta
      probability := ← field? d.probability Json.float? probability
      samples := ← field? d.samples Json.nat64? samples
      threshold := ← field? d.threshold Json.float? threshold
      maxSteps := ← field? d.maxSteps (Json.orNull? Json.nat64?) maxSteps
      start := ← field? d.start (fun j => j.name?.bind StartRule.ofName?) start
      move := ← field? d.move (fun j => j.name?.bind MoveRule.ofName?) move
      seed := ← field? d.seed (Json.orNull? Json.nat64?) seed }
  | _ => none

def restore (s : String) : Except Error Settings :=
  match (Json.parse? s).bind ofJson? with
  | some settings => .ok settings
  | none => .error .stored

end Settings

end WeightedCnf.LocalSearch
