import WeightedCnf.LocalSearch.Move
import WeightedCnf.LocalSearch.Start

namespace WeightedCnf.LocalSearch

open Annealing

structure Cooling where
  alpha : Float
  beta : Float

def Cooling.cool (c : Cooling) (temperature : Float) : Float := c.alpha * temperature + c.beta

structure Plan where
  start : StartRule
  move : MoveRule
  cooling : Cooling
  probability : Float
  samples : Nat

section

variable {σ : Type} [WordSource σ]

def Landscape.sampleChange (l : Landscape) : Draw σ Float := do
  let start ← StartRule.random.state l.index
  let moved ← l.randomMove start
  return ((← l.evaluate moved.state) - (← l.evaluate start)).abs

def Landscape.sampleChanges (l : Landscape) : Nat → Float → Draw σ Float
  | 0, total => pure total
  | count + 1, total => do l.sampleChanges count (total + (← l.sampleChange))

-- The temperature at which a move of average size is accepted with the given probability, or 1 if
-- that is no positive number.
def firstTemperature (mean probability : Float) : Float :=
  let temperature := (mean / probability.log).abs
  if temperature.isFinite && 0.0 < temperature then temperature else 1.0

def Plan.startTemperature (plan : Plan) (l : Landscape) : Draw σ Float := do
  let total ← l.sampleChanges plan.samples 0.0
  return firstTemperature (total / plan.samples.toUInt64.toFloat) plan.probability

def Plan.problem (plan : Plan) (l : Landscape) : Problem σ State where
  start := plan.start.state l.index
  evaluate := l.evaluate
  propose := plan.move.propose l
  startTemperature := plan.startTemperature l
  cool := plan.cooling.cool

end

end WeightedCnf.LocalSearch
