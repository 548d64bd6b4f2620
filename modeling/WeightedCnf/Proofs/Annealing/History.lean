import Mathlib.Data.List.Forall2
import WeightedCnf.Proofs.Annealing.Run
import WeightedCnf.Proofs.Annealing.Window

-- The history of a run is what the problem was asked and what it answered. The figures of the driver are
-- functions of it, and a step of a walk is one more turn.

namespace WeightedCnf.Annealing

variable {σ S : Type}

structure Spot (S : Type) where
  state : S
  score : Float

structure Turn (S : Type) where
  proposal : Proposal S
  score : Float
  taken : Bool

structure Passage (S : Type) where
  start : Spot S
  temperature : Float
  turns : List (Turn S)

def Turn.spot (t : Turn S) : Spot S := ⟨t.proposal.state, t.score⟩

def Turn.lead (here : Spot S) (t : Turn S) : Spot S := if t.taken then t.spot else here

def spotsFrom (here : Spot S) : List (Turn S) → List (Spot S)
  | [] => []
  | t :: turns => t.lead here :: spotsFrom (t.lead here) turns

def Best.meet (best : Best S) (v : Spot S) : Best S := best.consider v.state v.score

namespace Passage

def last (h : Passage S) : Spot S := h.turns.foldl Turn.lead h.start

def currents (h : Passage S) : List (Spot S) := h.start :: spotsFrom h.start h.turns

def scores (h : Passage S) : List Float := (spotsFrom h.start h.turns).map (·.score)

def taken (h : Passage S) : List (Spot S) := (h.turns.filter (·.taken)).map Turn.spot

def met (h : Passage S) : List (Spot S) := h.start :: h.taken

def heat (cool : Float → Float) (h : Passage S) : Float := Nat.repeat cool h.turns.length h.temperature

def extend (h : Passage S) (t : Turn S) : Passage S := { h with turns := h.turns ++ [t] }

def bestScore (h : Passage S) : Float :=
  (h.taken.foldl Best.meet ⟨h.start.score, some h.start.state⟩).score

def walk (limits : Limits) (cool : Float → Float) (earlier : Best S) (h : Passage S) : Walk S where
  current := h.last.state
  score := h.last.score
  temperature := h.heat cool
  window := .holding limits.windowSize h.scores
  steps := .ofNat h.turns.length
  accepted := .ofNat h.taken.length
  taken := (h.taken.map (·.score)).toArray
  bestScore := h.bestScore
  best := h.met.foldl Best.meet earlier

def record (h : Passage S) (reason : StopReason) : Restart :=
  ⟨h.start.score, h.last.score, h.bestScore, h.temperature, .ofNat h.turns.length,
    .ofNat h.taken.length, (h.taken.map (·.score)).toArray, reason⟩

-- After `k` steps the window is full and its scores hardly change.
def StagnantAfter (limits : Limits) (h : Passage S) (k : Nat) : Prop :=
  limits.windowSize ≤ k ∧ meanStep (latest limits.windowSize (h.scores.take k)) < limits.threshold

-- None of the steps is a reason to end the restart.
structure Goes (limits : Limits) (h : Passage S) : Prop where
  within : ∀ max, limits.maxSteps = some max → h.turns.length ≤ max.toNat
  unsignalled : ∀ t ∈ h.turns, t.proposal.stop = false
  moving : ∀ k, 0 < k → k ≤ h.turns.length → ¬ h.StagnantAfter limits k

-- The restart ends here, and for this reason. A wish to stop comes before stagnation.
inductive Stops (limits : Limits) : Passage S → StopReason → Prop where
  | stepLimit {h : Passage S} (goes : h.Goes limits)
    (spent : limits.maxSteps.map UInt64.toNat = some h.turns.length) : Stops limits h .stepLimit
  | signal {h : Passage S} {t : Turn S} (goes : h.Goes limits)
    (within : ∀ max, limits.maxSteps = some max → h.turns.length < max.toNat)
    (raised : t.proposal.stop = true) : Stops limits (h.extend t) .signal
  | stagnation {h : Passage S} {t : Turn S} (goes : h.Goes limits)
    (within : ∀ max, limits.maxSteps = some max → h.turns.length < max.toNat)
    (unraised : t.proposal.stop = false)
    (flat : (h.extend t).StagnantAfter limits (h.turns.length + 1)) : Stops limits (h.extend t) .stagnation

def Judged (limits : Limits) (h : Passage S) : Option StopReason → Prop
  | none => h.Goes limits
  | some reason => h.Stops limits reason

end Passage

inductive Made [WordSource σ] (p : Problem σ S) (origin : σ) : Passage S → σ → Prop where
  | start {between rest : σ} {state : S} {score temperature : Float}
    (drawn : p.start origin = .ok (state, between)) (scored : p.evaluate state = .ok score)
    (warmed : p.startTemperature between = .ok (temperature, rest)) :
    Made p origin ⟨⟨state, score⟩, temperature, []⟩ rest
  | turn {source between rest : σ} {h : Passage S} {t : Turn S} (before : Made p origin h source)
    (proposed : p.propose h.last.state source = .ok (t.proposal, between))
    (scored : p.evaluate t.proposal.state = .ok t.score)
    (decided : accept h.last.score t.score (h.heat p.cool) between = .ok (t.taken, rest)) :
    Made p origin (h.extend t) rest

inductive Happened [WordSource σ] (p : Problem σ S) (origin : σ) : List (Passage S) → σ → Prop where
  | nothing : Happened p origin [] origin
  | restart {source rest : σ} {history : List (Passage S)} {h : Passage S}
    (before : Happened p origin history source) (made : Made p source h rest) :
    Happened p origin (history ++ [h]) rest

def Restart.TellsOf (limits : Limits) (h : Passage S) (r : Restart) : Prop :=
  ∃ reason, h.Stops limits reason ∧ r = h.record reason

theorem lead_of_taken (here : Spot S) {t : Turn S} (taken : t.taken = true) : t.lead here = t.spot := by
  rw [Turn.lead, if_pos taken]

theorem lead_of_not_taken (here : Spot S) {t : Turn S} (refused : t.taken = false) : t.lead here = here := by
  rw [Turn.lead, refused, if_neg Bool.false_ne_true]

theorem spotsFrom_append_singleton (here : Spot S) (turns : List (Turn S)) (t : Turn S) :
    spotsFrom here (turns ++ [t]) = spotsFrom here turns ++ [t.lead (turns.foldl Turn.lead here)] := by
  induction turns generalizing here with
  | nil => rfl
  | cons first turns ih => exact congrArg _ (ih (first.lead here))

theorem length_spotsFrom (here : Spot S) (turns : List (Turn S)) :
    (spotsFrom here turns).length = turns.length := by
  induction turns generalizing here with
  | nil => rfl
  | cons first turns ih => exact congrArg _ (ih (first.lead here))

namespace Passage
variable (h : Passage S) (t : Turn S)

@[simp] theorem turns_extend : (h.extend t).turns = h.turns ++ [t] := rfl

@[simp] theorem start_extend : (h.extend t).start = h.start := rfl

@[simp] theorem last_extend : (h.extend t).last = t.lead h.last := by
  simp [last]

@[simp] theorem currents_extend : (h.extend t).currents = h.currents ++ [t.lead h.last] :=
  congrArg _ (spotsFrom_append_singleton h.start h.turns t)

@[simp] theorem scores_extend : (h.extend t).scores = h.scores ++ [(t.lead h.last).score] := by
  simp [scores, spotsFrom_append_singleton, last]

@[simp] theorem length_scores : h.scores.length = h.turns.length := by
  rw [scores, List.length_map, length_spotsFrom]

theorem getLast?_currents : h.currents.getLast? = some h.last := by
  rw [currents, last]
  generalize h.start = here
  induction h.turns generalizing here with
  | nil => rfl
  | cons t turns ih =>
    rw [spotsFrom, List.getLast?_cons_cons]
    exact ih (t.lead here)

@[simp] theorem heat_extend (cool : Float → Float) : (h.extend t).heat cool = cool (h.heat cool) := by
  simp only [heat, turns_extend, List.length_append, List.length_singleton]
  rfl

theorem taken_extend :
    (h.extend t).taken = if t.taken then h.taken ++ [t.spot] else h.taken := by
  simp only [taken, turns_extend, List.filter_append, List.map_append]
  split <;> simp [*]

end Passage

def Walk.after (cool : Float → Float) (w : Walk S) (t : Turn S) : Walk S :=
  (if t.taken then { w with steps := w.steps + 1 }.moveTo t.proposal.state t.score
    else { w with steps := w.steps + 1 }).settle cool

theorem meet_score (best : Best S) (v : Spot S) :
    (best.meet v).score = if best.score < v.score then v.score else best.score := by
  unfold Best.meet Best.consider
  split <;> rfl

theorem bestScore_extend {h : Passage S} {t : Turn S} (outcome : t.taken = true) :
    (h.extend t).bestScore = if h.bestScore < t.score then t.score else h.bestScore := by
  rw [Passage.bestScore, h.taken_extend, if_pos outcome, List.foldl_append]
  exact meet_score _ t.spot

theorem walk_extend (limits : Limits) (cool : Float → Float) (earlier : Best S) (h : Passage S) (t : Turn S) :
    (h.extend t).walk limits cool earlier = (h.walk limits cool earlier).after cool t := by
  have pushed := Window.push_holding limits.windowSize h.scores (t.lead h.last).score
  have listed := h.taken_extend t
  cases outcome : t.taken with
  | false =>
    have stays := lead_of_not_taken h.last outcome
    rw [outcome, if_neg Bool.false_ne_true] at listed
    rw [stays] at pushed
    simp [Passage.walk, Walk.after, Walk.settle, Passage.bestScore, Passage.met, outcome, stays, listed,
      pushed]
  | true =>
    have moves := lead_of_taken h.last outcome
    rw [outcome, if_pos rfl] at listed
    rw [moves] at pushed
    simp only [Passage.walk, Walk.after, Walk.settle, Walk.moveTo, bestScore_extend outcome, outcome,
      if_true, Passage.met, Passage.start_extend, listed, Passage.last_extend, moves,
      Passage.heat_extend, Passage.scores_extend, ← pushed, Passage.turns_extend, List.map_append,
      List.length_append, List.length_singleton, ← List.cons_append, List.foldl_append,
      List.push_toArray, UInt64.ofNat_add]
    rfl

theorem stagnantAfter_iff (limits : Limits) (cool : Float → Float) (earlier : Best S) (h : Passage S) :
    (h.walk limits cool earlier).window.isStagnant limits.threshold = true ↔
      h.StagnantAfter limits h.turns.length := by
  have all : h.scores.take h.turns.length = h.scores := by
    rw [← h.length_scores, List.take_length]
  rw [Passage.StagnantAfter, all, ← h.length_scores]
  exact Window.isStagnant_holding_iff

section Steps
variable [WordSource σ] {p : Problem σ S} {limits : Limits} {earlier : Best S} {h : Passage S}

-- All that a step can do: a proposal is drawn and judged, the walk takes it in, and it may be the last.
theorem step_eq_ok {w next : Walk S} {source rest : σ} {reason : Option StopReason}
    (moved : w.step p limits.threshold source = .ok ((next, reason), rest)) :
    ∃ t between, p.propose w.current source = .ok (t.proposal, between) ∧
      p.evaluate t.proposal.state = .ok t.score ∧
      accept w.score t.score w.temperature between = .ok (t.taken, rest) ∧
      next = w.after p.cool t ∧
      reason = if t.proposal.stop then some .signal
        else if next.window.isStagnant limits.threshold then some .stagnation
        else none := by
  obtain ⟨proposal, between, proposed, judged⟩ := Draw.bind_eq_ok moved
  obtain ⟨score, _, lifted, taking⟩ := Draw.bind_eq_ok judged
  obtain ⟨scored, rfl⟩ := Draw.lift_eq_ok lifted
  obtain ⟨taken, _, decided, given⟩ := Draw.bind_eq_ok taking
  cases given
  exact ⟨⟨proposal, score, taken⟩, _, proposed, scored, decided, rfl, rfl⟩

theorem stagnantAfter_extend {t : Turn S} {k : Nat} (before : k ≤ h.turns.length) :
    (h.extend t).StagnantAfter limits k ↔ h.StagnantAfter limits k := by
  rw [Passage.StagnantAfter, Passage.scores_extend,
    List.take_append_of_le_length (by rw [h.length_scores]; exact before)]
  rfl

theorem Passage.Goes.unsignalled_extend (goes : h.Goes limits) {t : Turn S}
    (unraised : t.proposal.stop = false) : ∀ u ∈ (h.extend t).turns, u.proposal.stop = false := by
  intro u member
  rcases List.mem_append.mp member with before | here
  · exact goes.unsignalled u before
  · rw [List.mem_singleton.mp here]
    exact unraised

theorem Passage.Goes.extend (goes : h.Goes limits) {t : Turn S}
    (within : ∀ max, limits.maxSteps = some max → h.turns.length < max.toNat)
    (unraised : t.proposal.stop = false)
    (moving : ¬ (h.extend t).StagnantAfter limits (h.turns.length + 1)) : (h.extend t).Goes limits where
  within max limited := by
    rw [turns_extend, List.length_append]
    exact within max limited
  unsignalled := goes.unsignalled_extend unraised
  moving k first last := by
    rw [turns_extend, List.length_append, List.length_singleton] at last
    rcases Nat.lt_or_eq_of_le last with earlier | equal
    · rw [stagnantAfter_extend (Nat.le_of_lt_succ earlier)]
      exact goes.moving k first (Nat.le_of_lt_succ earlier)
    · rw [equal]
      exact moving

-- Up to the limit the word that counts the steps is exact.
omit [WordSource σ] in
theorem isExhausted_walk_iff (goes : h.Goes limits) {cool : Float → Float} :
    (h.walk limits cool earlier).isExhausted limits.maxSteps = true ↔
      limits.maxSteps.map UInt64.toNat = some h.turns.length := by
  cases limited : limits.maxSteps with
  | none => simp [Walk.isExhausted]
  | some max =>
    have within := goes.within max limited
    have exact : (UInt64.ofNat h.turns.length).toNat = h.turns.length :=
      UInt64.toNat_ofNat_of_lt' (Nat.lt_of_le_of_lt within max.toNat_lt)
    simp only [Walk.isExhausted, Passage.walk, decide_eq_true_eq, UInt64.le_iff_toNat_le, exact,
      Option.map_some, Option.some.injEq]
    omega

-- A step that the limit allows adds a turn, and tells whether the turn is a reason to end.
theorem step_history {origin source rest : σ} {next : Walk S} {reason : Option StopReason}
    (made : Made p origin h source) (goes : h.Goes limits)
    (going : ¬ (h.walk limits p.cool earlier).isExhausted limits.maxSteps)
    (moved : (h.walk limits p.cool earlier).step p limits.threshold source = .ok ((next, reason), rest)) :
    ∃ t : Turn S, Made p origin (h.extend t) rest ∧ next = (h.extend t).walk limits p.cool earlier ∧
      (h.extend t).Judged limits reason := by
  have within : ∀ max, limits.maxSteps = some max → h.turns.length < max.toNat := by
    intro max limited
    apply Nat.lt_of_le_of_ne (goes.within max limited)
    intro reached
    rw [isExhausted_walk_iff goes, limited, reached] at going
    exact going rfl
  obtain ⟨t, _, proposed, scored, decided, rfl, rfl⟩ := step_eq_ok moved
  refine ⟨t, made.turn proposed scored decided, (walk_extend ..).symm, ?_⟩
  rw [← walk_extend]
  cases raised : t.proposal.stop with
  | true => exact .signal goes within raised
  | false =>
    have flat := stagnantAfter_iff limits p.cool earlier (h.extend t)
    rw [Passage.turns_extend, List.length_append, List.length_singleton] at flat
    rw [if_neg Bool.false_ne_true]
    by_cases stagnant : ((h.extend t).walk limits p.cool earlier).window.isStagnant limits.threshold
    · rw [if_pos stagnant]
      exact .stagnation goes within raised (flat.mp stagnant)
    · rw [if_neg stagnant]
      exact goes.extend within raised (flat.not.mp stagnant)

-- What is left of a restart adds turns to its history until one of them is a reason to end.
theorem run_walk_history {fuel : Nat} {origin source rest : σ} {last : Walk S} {reason : StopReason}
    (made : Made p origin h source) (goes : h.Goes limits)
    (ran : (h.walk limits p.cool earlier).run p limits fuel source = .ok ((last, reason), rest)) :
    ∃ full : Passage S, full.start = h.start ∧ full.temperature = h.temperature ∧
      Made p origin full rest ∧ full.Stops limits reason ∧ last = full.walk limits p.cool earlier := by
  induction fuel generalizing h source with
  | zero => cases ran
  | succ fuel ih =>
    unfold Walk.run at ran
    split at ran
    · rename_i exhausted
      cases ran
      exact ⟨h, rfl, rfl, made, .stepLimit goes ((isExhausted_walk_iff goes).mp exhausted), rfl⟩
    · rename_i going
      obtain ⟨⟨next, found⟩, between, moved, later⟩ := Draw.bind_eq_ok ran
      obtain ⟨t, after, rfl, judged⟩ := step_history made goes going moved
      cases found with
      | some found =>
        cases later
        exact ⟨h.extend t, rfl, rfl, after, judged, rfl⟩
      | none => exact ih (h := h.extend t) after judged later

theorem start_eq_ok {first : Walk S} {source rest : σ}
    (started : Walk.start p limits earlier source = .ok (first, rest)) :
    ∃ h : Passage S, h.turns = [] ∧ Made p source h rest ∧ first = h.walk limits p.cool earlier := by
  obtain ⟨state, between, drawn, judging⟩ := Draw.bind_eq_ok started
  obtain ⟨score, _, lifted, warming⟩ := Draw.bind_eq_ok judging
  obtain ⟨scored, rfl⟩ := Draw.lift_eq_ok lifted
  obtain ⟨temperature, after, warmed, opening⟩ := Draw.bind_eq_ok warming
  obtain ⟨window, _, reserved, given⟩ := Draw.bind_eq_ok opening
  obtain ⟨made, rfl⟩ := Draw.lift_eq_ok reserved
  cases given
  obtain ⟨_, _, opened⟩ := bind_eq_ok_iff.mp made
  cases opened
  refine ⟨⟨⟨state, score⟩, temperature, []⟩, rfl, .start drawn scored warmed, ?_⟩
  rw [← Window.holding_nil]
  rfl

theorem goes_of_nil (unmoved : h.turns = []) : h.Goes limits where
  within max _ := by
    rw [unmoved]
    exact Nat.zero_le max.toNat
  unsignalled t member := by
    rw [unmoved] at member
    cases member
  moving k first last := by
    rw [unmoved] at last
    exact absurd last (Nat.not_le_of_lt first)

theorem restart_history {fuel : Nat} {source rest : σ} {after : Best S} {r : Restart}
    (ran : restart p limits fuel earlier source = .ok ((after, r), rest)) :
    ∃ h : Passage S, Made p source h rest ∧ r.TellsOf limits h ∧ after = h.met.foldl Best.meet earlier := by
  obtain ⟨first, between, started, walked⟩ := Draw.bind_eq_ok ran
  obtain ⟨⟨last, reason⟩, _, ended, given⟩ := Draw.bind_eq_ok walked
  cases given
  obtain ⟨h, unmoved, made, rfl⟩ := start_eq_ok started
  obtain ⟨full, start, temperature, complete, stops, rfl⟩ :=
    run_walk_history made (goes_of_nil unmoved) ended
  refine ⟨full, complete, ⟨reason, stops, ?_⟩, rfl⟩
  have begins : h.last = h.start := by rw [Passage.last, unmoved]; rfl
  have unheated : h.heat p.cool = h.temperature := by rw [Passage.heat, unmoved]; rfl
  simp only [Passage.record, Passage.walk, begins, unheated, start, temperature]

end Steps

-- The history of a run beside its outcome: one passage for each record, and the best of all that was met.
structure Outcome.TellsOf (limits : Limits) (history : List (Passage S)) (o : Outcome S) : Prop where
  records : List.Forall₂ (Restart.TellsOf limits) history o.restarts.toList
  totalSteps : o.totalSteps = (o.restarts.toList.map (·.steps)).foldl (· + ·) 0
  best : o.best = (history.flatMap Passage.met).foldl Best.meet .nothing

theorem Outcome.TellsOf.extend {limits : Limits} {history : List (Passage S)} {o : Outcome S}
    (tells : o.TellsOf limits history) {h : Passage S} {r : Restart} (told : r.TellsOf limits h) :
    Outcome.TellsOf limits (history ++ [h]) ⟨o.push r, h.met.foldl Best.meet o.best⟩ where
  records := by
    rw [Stats.push, Array.toList_push]
    exact List.rel_append tells.records (.cons told .nil)
  totalSteps := by
    simp [Stats.push, tells.totalSteps]
  best := by
    rw [List.flatMap_append, List.foldl_append, ← tells.best]
    simp

theorem Outcome.TellsOf.size_restarts {limits : Limits} {history : List (Passage S)} {o : Outcome S}
    (tells : o.TellsOf limits history) : o.restarts.size = history.length := by
  rw [← Array.length_toList]
  exact tells.records.length_eq.symm

section Runs
variable [WordSource σ] {p : Problem σ S} {limits : Limits} {fuel : Nat}

theorem restarts_history {count : Nat} {o final : Outcome S} {history : List (Passage S)}
    {origin source rest : σ} (happened : Happened p origin history source)
    (tells : o.TellsOf limits history)
    (ran : restarts p limits fuel count o source = .ok (final, rest)) :
    ∃ full, full.length = history.length + count ∧ Happened p origin full rest ∧
      final.TellsOf limits full := by
  induction count generalizing o source history with
  | zero =>
    cases ran
    exact ⟨history, rfl, happened, tells⟩
  | succ count ih =>
    obtain ⟨⟨best, r⟩, between, once, later⟩ := Draw.bind_eq_ok ran
    obtain ⟨h, made, told, rfl⟩ := restart_history once
    obtain ⟨full, counted, complete, final⟩ := ih (happened.restart made) (tells.extend told) later
    refine ⟨full, ?_, complete, final⟩
    rw [counted, List.length_append, List.length_singleton]
    omega

theorem run_history {source rest : σ} {o : Outcome S} (ran : run p limits fuel source = .ok (o, rest)) :
    ∃ history, history.length = limits.restarts ∧ Happened p source history rest ∧
      o.TellsOf limits history := by
  have tells : Outcome.TellsOf (S := S) limits [] ⟨.empty, .nothing⟩ := ⟨.nil, rfl, rfl⟩
  obtain ⟨history, counted, happened, told⟩ := restarts_history .nothing tells ran
  rw [List.length_nil, Nat.zero_add] at counted
  exact ⟨history, counted, happened, told⟩

theorem Happened.made {origin rest : σ} {history : List (Passage S)} (happened : Happened p origin history rest) :
    ∀ h ∈ history, ∃ before after, Made p before h after := by
  induction happened with
  | nothing =>
    intro h member
    cases member
  | restart before made ih =>
    intro h member
    rcases List.mem_append.mp member with old | new
    · exact ih h old
    · rw [List.mem_singleton.mp new]
      exact ⟨_, _, made⟩

theorem Outcome.TellsOf.records_made {o : Outcome S} {history : List (Passage S)} {source rest : σ}
    {related : Passage S → Restart → Prop} (tells : o.TellsOf limits history)
    (happened : Happened p source history rest)
    (each : ∀ h r before after, Made p before h after → r.TellsOf limits h → related h r) :
    List.Forall₂ related history o.restarts.toList := by
  apply ((List.forall₂_and_left _ _).mpr ⟨happened.made, tells.records⟩).imp
  rintro h r ⟨⟨before, after, made⟩, told⟩
  exact each h r before after made told

end Runs

end WeightedCnf.Annealing
