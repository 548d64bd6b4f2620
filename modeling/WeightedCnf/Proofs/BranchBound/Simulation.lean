import WeightedCnf.Proofs.State.Decided

-- A frame that enters a node runs until the node is left, leaves the frames below and the state as they were,
-- and changes incumbent and statistics as the recursion over the subtree does.

namespace WeightedCnf.BranchBound
open Occurrences State

def Tour.search (stack : List Frame) (state : State) (t : Tour) : Search Nat :=
  ⟨stack, state, t.incumbent, t.stats⟩

section Runs
variable {N : Type} [OfNat N 1] [Add N] {nVars : Nat} {index : Occurrences} {s next : Search N}

theorem run_nil (done : s.stack = []) : run nVars index s = .ok s := by
  rw [run]
  split
  · rfl
  · rename_i frame below top
    rw [done] at top
    cases top

theorem run_step {frame : Frame} {below : List Frame} (top : s.stack = frame :: below)
    (step : advance nVars index frame below s = .ok next) :
    run nVars index s = run nVars index next := by
  rw [run]
  split
  · rename_i empty
    rw [top] at empty
    cases empty
  · rename_i frame' below' top'
    rw [top] at top'
    cases top'
    split
    · rename_i cause failed
      rw [step] at failed
      cases failed
    · rename_i reached stepped
      rw [step] at stepped
      cases stepped
      rfl

end Runs

variable {f : Formula} {index : Occurrences} {decided : List Bool} {current remaining : Nat}
  {below : List Frame}

theorem isHopeless_eq {t : Tour} {frame : Frame}
    (fits : frame.current + frame.remaining < word64) :
    isHopeless t.incumbent frame = .ok (t.isBeaten (frame.current + frame.remaining)) := by
  unfold isHopeless Tour.isBeaten
  cases t.incumbent with
  | none => rfl
  | some best =>
    have sum : add64 frame.current frame.remaining = .ok (frame.current + frame.remaining) :=
      within_eq_ok_iff.mpr ⟨fits, rfl⟩
    simp only [sum, bind, Except.bind, pure, Except.pure]

def Tour.settle (nVars : Nat) (frame : Frame) (below : List Frame) (state : State) (t : Tour) :
    Search Nat :=
  if t.isBeaten (frame.current + frame.remaining) then t.pruneBound.search below state
  else if nVars < frame.var then t.leaf.search below state
  else t.search ({ frame with stage := .tryFalse } :: below) state

theorem proceed_eq {nVars : Nat} (frame : Frame) (state : State) (t : Tour)
    (fits : frame.current + frame.remaining < word64) :
    proceed nVars frame below state t.incumbent t.stats = .ok (t.settle nVars frame below state) := by
  rw [proceed, isHopeless_eq fits, Tour.settle]
  cases t.isBeaten (frame.current + frame.remaining) with
  | true => rfl
  | false =>
    simp only [Bool.false_eq_true, if_false]
    split <;> rfl

-- Entering a node does what one call of the recursion does before it turns to the branches.
theorem enter_eq (t : Tour) (stack : List Frame) (fits : current + remaining < word64) :
    enter f.nVars ⟨decided.length + 1, remaining, current, .enter⟩ below
        (t.search stack (recount f (valuesOf f.nVars decided))) =
      .ok (if f.clauses.any (Clause.isFalse (valuesOf f.nVars decided)) then
        (t.count decided.length).pruneConflict.search below (recount f (valuesOf f.nVars decided))
      else
        ((t.count decided.length).consider f decided current).settle f.nVars
          ⟨decided.length + 1, remaining, current, .enter⟩ below
          (recount f (valuesOf f.nVars decided))) := by
  simp only [enter, Tour.search, hasConflict_recount, isSatisfied_recount, toAssignment_recount]
  split
  · rfl
  · have same : (t.count decided.length).incumbent = t.incumbent := rfl
    rw [Tour.consider]
    by_cases found : (improves (t.count decided.length).incumbent current &&
        f.clauses.all (Clause.isTrue (valuesOf f.nVars decided))) = true
    · rw [if_pos found]
      rw [same] at found
      rw [if_pos found]
      exact proceed_eq ⟨decided.length + 1, remaining, current, .enter⟩ _
        ((t.count decided.length).record f.nVars decided current) fits
    · rw [if_neg found]
      rw [same] at found
      rw [if_neg found]
      exact proceed_eq ⟨decided.length + 1, remaining, current, .enter⟩ _ (t.count decided.length) fits

theorem run_enter (t : Tour) (fits : current + remaining < word64) :
    run f.nVars index (t.search (⟨decided.length + 1, remaining, current, .enter⟩ :: below)
        (recount f (valuesOf f.nVars decided))) =
      run f.nVars index (if f.clauses.any (Clause.isFalse (valuesOf f.nVars decided)) then
        (t.count decided.length).pruneConflict.search below (recount f (valuesOf f.nVars decided))
      else
        ((t.count decided.length).consider f decided current).settle f.nVars
          ⟨decided.length + 1, remaining, current, .enter⟩ below
          (recount f (valuesOf f.nVars decided))) := by
  apply run_step rfl
  exact enter_eq t _ fits

theorem child_eq (valid : f.Valid) (tables : Tables f f.positions index)
    (more : decided.length < f.nVars) (fits : current + openWeight f decided.length < word64)
    (stage : Stage) (value : Bool) :
    child index ⟨decided.length + 1, openWeight f decided.length, current, stage⟩ value =
      .ok ⟨decided.length + 2, openWeight f (decided.length + 1),
        if value then current + f.weights.getD (decided.length + 1) 0 else current, .enter⟩ := by
  have step := openWeight_step valid more
  have rest : subtract (openWeight f decided.length) (f.weights.getD (decided.length + 1) 0) =
      .ok (openWeight f (decided.length + 1)) := subtract_eq_ok_iff.mpr ⟨by omega, by omega⟩
  have sum : add64 current (f.weights.getD (decided.length + 1) 0) =
      .ok (current + f.weights.getD (decided.length + 1) 0) := within_eq_ok_iff.mpr ⟨by omega, rfl⟩
  cases value <;>
    simp only [child, tables.weight_eq valid more, rest, sum, bind, Except.bind, pure, Except.pure,
      Bool.false_eq_true, if_true, if_false]

section Branches
variable (fit : f.Searchable) (tables : Tables f f.positions index) (more : decided.length < f.nVars)
  (fits : current + openWeight f decided.length < word64) (t : Tour) (stack : List Frame)
include fit tables more fits

theorem advance_tryFalse :
    advance f.nVars index ⟨decided.length + 1, openWeight f decided.length, current, .tryFalse⟩ below
        (t.search stack (recount f (valuesOf f.nVars decided))) =
      .ok (t.search
        (⟨decided.length + 2, openWeight f (decided.length + 1), current, .enter⟩ ::
          ⟨decided.length + 1, openWeight f decided.length, current, .tryTrue⟩ :: below)
        (recount f (valuesOf f.nVars (decided ++ [false])))) := by
  simp only [advance, Tour.search, child_eq fit.toValid tables more fits,
    assign_next fit tables more, bind, Except.bind, pure, Except.pure, Bool.false_eq_true, if_false]

-- The value of the first branch is taken away only here, when the second branch begins.
theorem advance_tryTrue :
    advance f.nVars index ⟨decided.length + 1, openWeight f decided.length, current, .tryTrue⟩ below
        (t.search stack (recount f (valuesOf f.nVars (decided ++ [false])))) =
      .ok (t.search
        (⟨decided.length + 2, openWeight f (decided.length + 1),
            current + f.weights.getD (decided.length + 1) 0, .enter⟩ ::
          ⟨decided.length + 1, openWeight f decided.length, current, .leave⟩ :: below)
        (recount f (valuesOf f.nVars (decided ++ [true])))) := by
  simp only [advance, Tour.search, child_eq fit.toValid tables more fits,
    unassign_next fit tables more, assign_next fit tables more, bind, Except.bind, pure, Except.pure,
    if_true]

omit fits in
theorem advance_leave (remaining : Nat) :
    advance f.nVars index ⟨decided.length + 1, remaining, current, .leave⟩ below
        (t.search stack (recount f (valuesOf f.nVars (decided ++ [true])))) =
      .ok (t.search below (recount f (valuesOf f.nVars decided))) := by
  simp only [advance, Tour.search, unassign_next fit tables more, bind, Except.bind, pure, Except.pure]

theorem run_tryFalse :
    run f.nVars index (t.search
        (⟨decided.length + 1, openWeight f decided.length, current, .tryFalse⟩ :: below)
        (recount f (valuesOf f.nVars decided))) =
      run f.nVars index (t.search
        (⟨decided.length + 2, openWeight f (decided.length + 1), current, .enter⟩ ::
          ⟨decided.length + 1, openWeight f decided.length, current, .tryTrue⟩ :: below)
        (recount f (valuesOf f.nVars (decided ++ [false])))) :=
  run_step rfl (advance_tryFalse fit tables more fits t _)

theorem run_tryTrue :
    run f.nVars index (t.search
        (⟨decided.length + 1, openWeight f decided.length, current, .tryTrue⟩ :: below)
        (recount f (valuesOf f.nVars (decided ++ [false])))) =
      run f.nVars index (t.search
        (⟨decided.length + 2, openWeight f (decided.length + 1),
            current + f.weights.getD (decided.length + 1) 0, .enter⟩ ::
          ⟨decided.length + 1, openWeight f decided.length, current, .leave⟩ :: below)
        (recount f (valuesOf f.nVars (decided ++ [true])))) :=
  run_step rfl (advance_tryTrue fit tables more fits t _)

omit fits in
theorem run_leave (remaining : Nat) :
    run f.nVars index (t.search (⟨decided.length + 1, remaining, current, .leave⟩ :: below)
        (recount f (valuesOf f.nVars (decided ++ [true])))) =
      run f.nVars index (t.search below (recount f (valuesOf f.nVars decided))) :=
  run_step rfl (advance_leave fit tables more t _ remaining)

end Branches

theorem run_visit (fit : f.Searchable) (tables : Tables f f.positions index) {height : Nat}
    (depth : decided.length + height = f.nVars)
    (fits : current + openWeight f decided.length < word64) (t : Tour) :
    run f.nVars index (t.search
        (⟨decided.length + 1, openWeight f decided.length, current, .enter⟩ :: below)
        (recount f (valuesOf f.nVars decided))) =
      run f.nVars index
        ((walk f height decided (openWeight f decided.length) current t).search below
          (recount f (valuesOf f.nVars decided))) := by
  induction height generalizing decided current below t with
  | zero =>
    have full : f.nVars < decided.length + 1 := by omega
    rw [run_enter t fits, walk]
    simp only [Tour.settle, full, if_true]
    split
    · rfl
    · split <;> rfl
  | succ height ih =>
    have more : decided.length < f.nVars := by omega
    have inside : ¬ f.nVars < decided.length + 1 := by omega
    have length : ∀ value, (decided ++ [value]).length = decided.length + 1 := by simp
    have step := openWeight_step fit.toValid more
    have rest : openWeight f decided.length - f.weights.getD (decided.length + 1) 0 =
        openWeight f (decided.length + 1) := by omega
    rw [run_enter t fits, walk]
    simp only [Tour.settle, inside, if_false, rest]
    split
    · rfl
    · split
      · rfl
      · have first := @ih (decided ++ [false]) current
          (⟨decided.length + 1, openWeight f decided.length, current, .tryTrue⟩ :: below)
          (by rw [length]; omega) (by rw [length]; omega)
        have second := @ih (decided ++ [true]) (current + f.weights.getD (decided.length + 1) 0)
          (⟨decided.length + 1, openWeight f decided.length, current, .leave⟩ :: below)
          (by rw [length]; omega) (by rw [length]; omega)
        rw [length] at first second
        rw [run_tryFalse fit tables more fits, first, run_tryTrue fit tables more fits, second,
          run_leave fit tables more]

end WeightedCnf.BranchBound
