import WeightedCnf.Random.Draw

namespace WeightedCnf.Annealing

-- A proposed next state. `stop` says that the restart should end after it was considered.
structure Proposal (S : Type) where
  state : S
  stop : Bool
deriving DecidableEq, Repr

structure Problem (σ S : Type) where
  start : Draw σ S
  evaluate : S → Except Fault Float
  propose : S → Draw σ (Proposal S)
  startTemperature : Draw σ Float
  cool : Float → Float

end WeightedCnf.Annealing
