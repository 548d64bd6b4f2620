import WeightedCnf.Decimal.Layout
import WeightedCnf.Decimal.Reader
import WeightedCnf.Json.Decode
import WeightedCnf.Json.Printer
import WeightedCnf.Formula.Stored
import WeightedCnf.State
import WeightedCnf.BranchBound.Walk
import WeightedCnf.Random.ChaCha
import WeightedCnf.Random.Scripted
import WeightedCnf.Annealing.Run
import WeightedCnf.LocalSearch.Temperature
import WeightedCnf.LocalSearch.Solver
import WeightedCnf.Command.Folder
import WeightedCnf.Solution
import WeightedCnf.Formula.Reader
import WeightedCnf.Formula.Writer
import WeightedCnf.Main
import WeightedCnf.Model
import WeightedCnf.Proofs.Total
import WeightedCnf.Proofs.Formula.Valid
import WeightedCnf.Proofs.Formula.Bound
import WeightedCnf.Proofs.Occurrences
import WeightedCnf.Proofs.Occurrences.Lists
import WeightedCnf.Proofs.State.Recount
import WeightedCnf.Proofs.State.Decided
import WeightedCnf.Proofs.State.History
import WeightedCnf.Proofs.State.Agreement
import WeightedCnf.Proofs.State.Reachable
import WeightedCnf.Proofs.State.Verdicts
import WeightedCnf.Proofs.BranchBound.Simulation
import WeightedCnf.Proofs.Formula.Judgement
import WeightedCnf.Proofs.BranchBound.Optimality
import WeightedCnf.Proofs.BranchBound.Solve
import WeightedCnf.Proofs.BranchBound.Rearranged
import WeightedCnf.Proofs.BranchBound.Trail
import WeightedCnf.Proofs.BranchBound.Trace
import WeightedCnf.Proofs.BranchBound.Account
import WeightedCnf.Proofs.Formula.Reading
import WeightedCnf.Proofs.Text.Written
import WeightedCnf.Proofs.Text.Pieces
import WeightedCnf.Proofs.Formula.RoundTrip
import WeightedCnf.Proofs.Formula.Grammar
import WeightedCnf.Proofs.Formula.Size
import WeightedCnf.Proofs.Random.Draw
import WeightedCnf.Proofs.Annealing.Best
import WeightedCnf.Proofs.Annealing.Run
import WeightedCnf.Proofs.Annealing.Window
import WeightedCnf.Proofs.LocalSearch.Score
import WeightedCnf.Proofs.LocalSearch.Climb
import WeightedCnf.Proofs.LocalSearch.Repair
import WeightedCnf.Proofs.LocalSearch.Moves
import WeightedCnf.Proofs.LocalSearch.Solver
import WeightedCnf.Proofs.LocalSearch.Order
import WeightedCnf.Proofs.Model
import WeightedCnf.Proofs.Command.Action
import WeightedCnf.Proofs.Command.Verify
import WeightedCnf.Proofs.Annealing.History
import WeightedCnf.Proofs.Annealing.Records
import WeightedCnf.Proofs.Annealing.BestState
import WeightedCnf.Proofs.Annealing.Ascent
import WeightedCnf.Proofs.LocalSearch.Ascent
import WeightedCnf.Proofs.LocalSearch.Start
import WeightedCnf.Proofs.Formula.Failure
import WeightedCnf.Proofs.Model.Reading
import WeightedCnf.Proofs.BranchBound.Words
