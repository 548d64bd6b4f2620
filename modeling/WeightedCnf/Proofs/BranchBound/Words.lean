import WeightedCnf.Proofs.BranchBound.Simulation
import WeightedCnf.Proofs.Basic

namespace WeightedCnf.BranchBound

def Stats.words (s : Stats Nat) : Stats UInt64 :=
  ⟨.ofNat s.nodes, .ofNat s.conflictPrunes, .ofNat s.boundPrunes, .ofNat s.leaves, s.maxDepth, s.trace⟩

-- The search that counts in words, beside one that counts in natural numbers.
def Search.words (s : Search Nat) : Search UInt64 := ⟨s.stack, s.state, s.incumbent, s.stats.words⟩

variable {nVars : Nat} {index : Occurrences} {frame : Frame} {below : List Frame}

-- No test reads a counter, so the two take the same branches.
theorem proceed_words (state : State) (incumbent : Option Incumbent) (stats : Stats Nat) :
    proceed nVars frame below state incumbent stats.words =
      (proceed nVars frame below state incumbent stats).map Search.words := by
  unfold proceed
  cases isHopeless incumbent frame with
  | error cause => rfl
  | ok hopeless =>
    cases hopeless with
    | true => simp [Except.map, Search.words, Stats.words]
    | false =>
      dsimp only
      split <;> simp [Except.map, Search.words, Stats.words]

theorem enter_words (s : Search Nat) :
    enter nVars frame below s.words = (enter nVars frame below s).map Search.words := by
  unfold enter
  split
  · rename_i conflict
    rw [if_pos (show s.state.hasConflict = true from conflict)]
    simp [Except.map, Search.words, Stats.words]
  · rename_i consistent
    rw [if_neg (show ¬ s.state.hasConflict = true from consistent)]
    split
    · rename_i found
      rw [if_pos (show (improves s.incumbent frame.current && s.state.isSatisfied) = true from found),
        ← proceed_words]
      simp [Search.words, Stats.words]
    · rename_i worse
      rw [if_neg (show ¬ (improves s.incumbent frame.current && s.state.isSatisfied) = true from worse),
        ← proceed_words]
      simp [Search.words, Stats.words]

theorem map_bind_words {x : Except Fault α} {f : α → Except Fault (Search UInt64)}
    {g : α → Except Fault (Search Nat)} (same : ∀ a, f a = (g a).map Search.words) :
    (x >>= f) = (x >>= g).map Search.words := by
  cases x with
  | error cause => rfl
  | ok a => exact same a

theorem advance_words (s : Search Nat) :
    advance nVars index frame below s.words =
      (advance nVars index frame below s).map Search.words := by
  unfold advance
  cases frame.stage with
  | enter => exact enter_words s
  | tryFalse => exact map_bind_words fun _ => map_bind_words fun _ => rfl
  | tryTrue => exact map_bind_words fun _ => map_bind_words fun _ => map_bind_words fun _ => rfl
  | leave => exact map_bind_words fun _ => rfl

theorem advance_words_ok {s next : Search Nat} (stepped : advance nVars index frame below s = .ok next) :
    advance nVars index frame below s.words = .ok next.words := by
  rw [advance_words, stepped]
  rfl

theorem run_words {s final : Search Nat} (ran : run nVars index s = .ok final) :
    run nVars index s.words = .ok final.words := by
  fun_induction run nVars index s with
  | case1 s done =>
    cases ran
    exact run_nil done
  | case2 => cases ran
  | case3 s frame below top next stepped _ ih =>
    have same : s.words.stack = frame :: below := top
    rw [run_step same (advance_words_ok stepped)]
    exact ih ran

end WeightedCnf.BranchBound
