import WeightedCnf.Proofs.Annealing.FloatOrder
import WeightedCnf.Proofs.Basic
import WeightedCnf.Proofs.Annealing.History

namespace WeightedCnf.Annealing

variable {σ S : Type}

inductive Ascends (height : S → Nat) (peak : S → Prop) (s : S) (q : Proposal S) : Prop where
  | rises (goes : q.stop = false) (higher : height s < height q.state)
  | rests (top : peak s) (equal : q = ⟨s, true⟩)

-- The score of a state is its height, a number that is not rounded, and above a state there is less room
-- than above a lower one.
structure Problem.Climbs [WordSource σ] (p : Problem σ S) (kept : S → Prop) (height room : S → Nat)
    (peak : S → Prop) : Prop where
  sound : p.Sound kept
  evaluate : ∀ s, kept s → p.evaluate s = .ok (height s).toUInt64.toFloat
  exact : ∀ s, kept s → height s < 9007199254740992
  ascends : ∀ s, kept s → Draw.Always (Ascends height peak s) (p.propose s)
  less : ∀ s t, kept s → kept t → height s < height t → room t < room s

structure Spot.Stands (kept : S → Prop) (height : S → Nat) (v : Spot S) : Prop where
  held : kept v.state
  scored : v.score = (height v.state).toUInt64.toFloat

inductive Turn.Climbs (kept : S → Prop) (height : S → Nat) (peak : S → Prop) (here : Spot S) (t : Turn S) :
    Prop where
  | rises (goes : t.proposal.stop = false) (stands : t.spot.Stands kept height)
    (higher : height here.state < height t.spot.state) (above : here.score < t.spot.score)
    (taken : t.taken = true)
  | rests (raised : t.proposal.stop = true) (top : peak here.state) (same : t.spot = here)

def Passage.RisesAt (height : S → Nat) (h : Passage S) (k : Nat) : Prop :=
  ∃ before after, h.currents[k]? = some before ∧ h.currents[k + 1]? = some after ∧
    before.score < after.score ∧ height before.state < height after.state

structure Passage.Climbs (kept : S → Prop) (height room : S → Nat) (peak : S → Prop) (h : Passage S) :
    Prop where
  stands : ∀ v ∈ h.currents, v.Stands kept height
  spent : room h.last.state + h.turns.countP (!·.proposal.stop) ≤ room h.start.state
  best : h.bestScore = h.last.score
  rises : ∀ k t, h.turns[k]? = some t → t.proposal.stop = false → h.RisesAt height k
  rests : ∀ t, h.turns.getLast? = some t → t.proposal.stop = true → peak h.last.state

theorem length_currents (h : Passage S) : h.currents.length = h.turns.length + 1 := by
  rw [Passage.currents, List.length_cons, length_spotsFrom]

theorem getElem?_currents_length (h : Passage S) : h.currents[h.turns.length]? = some h.last := by
  rw [← h.getLast?_currents, List.getLast?_eq_getElem?, length_currents, Nat.add_sub_cancel]

theorem getElem?_currents_extend {h : Passage S} {k : Nat} {v : Spot S} (found : h.currents[k]? = some v)
    (t : Turn S) : (h.extend t).currents[k]? = some v := by
  obtain ⟨inside, _⟩ := List.getElem?_eq_some_iff.mp found
  rw [Passage.currents_extend, List.getElem?_append_left inside]
  exact found

theorem Passage.RisesAt.extend {height : S → Nat} {h : Passage S} {k : Nat} (rises : h.RisesAt height k)
    (t : Turn S) : (h.extend t).RisesAt height k := by
  obtain ⟨before, after, first, second, above, higher⟩ := rises
  exact ⟨before, after, getElem?_currents_extend first t, getElem?_currents_extend second t, above, higher⟩

theorem risesAt_extend {height : S → Nat} {h : Passage S} {t : Turn S}
    (above : h.last.score < (t.lead h.last).score)
    (higher : height h.last.state < height (t.lead h.last).state) :
    (h.extend t).RisesAt height h.turns.length := by
  refine ⟨h.last, t.lead h.last, getElem?_currents_extend (getElem?_currents_length h) t, ?_, above, higher⟩
  rw [Passage.currents_extend, ← length_currents]
  exact List.getElem?_concat_length

section Climbing
variable [WordSource σ] {p : Problem σ S} {kept peak : S → Prop} {height room : S → Nat} {limits : Limits}

theorem accept_of_lt {current next temperature : Float} (higher : current < next) {source rest : σ}
    {taken : Bool} (decided : accept current next temperature source = .ok (taken, rest)) :
    taken = true := by
  rw [accept, if_pos higher] at decided
  cases decided
  rfl

-- A higher state has a larger score, so it is taken without a draw.
theorem Problem.Climbs.turn (climbs : p.Climbs kept height room peak) {here : Spot S}
    (stands : here.Stands kept height) {t : Turn S} {source between rest : σ} {temperature : Float}
    (proposed : p.propose here.state source = .ok (t.proposal, between))
    (scored : p.evaluate t.proposal.state = .ok t.score)
    (decided : accept here.score t.score temperature between = .ok (t.taken, rest)) :
    t.Climbs kept height peak here := by
  have held := (climbs.sound.propose here.state stands.held).of_eq_ok proposed
  have next : t.spot.Stands kept height := by
    rw [climbs.evaluate t.proposal.state held] at scored
    exact ⟨held, (Except.ok.inj scored).symm⟩
  cases (climbs.ascends here.state stands.held).of_eq_ok proposed with
  | rises goes higher =>
    have above : here.score < t.spot.score := by
      rw [stands.scored, next.scored]
      exact toFloat_lt_of_lt higher (climbs.exact t.spot.state held)
    exact .rises goes next higher above (accept_of_lt above decided)
  | rests top equal =>
    have state : t.spot.state = here.state := congrArg Proposal.state equal
    refine .rests (congrArg Proposal.stop equal) top ?_
    rw [Spot.mk.injEq]
    refine ⟨state, ?_⟩
    rw [next.scored, state, ← stands.scored]

theorem countP_goes_extend (h : Passage S) (t : Turn S) :
    (h.extend t).turns.countP (!·.proposal.stop) =
      h.turns.countP (!·.proposal.stop) + if t.proposal.stop then 0 else 1 := by
  rw [Passage.turns_extend, List.countP_append, List.countP_singleton]
  cases t.proposal.stop <;> rfl

theorem lead_of_same {here : Spot S} {t : Turn S} (same : t.spot = here) : t.lead here = here := by
  rw [Turn.lead, same, ite_self]

theorem bestScore_of_same {h : Passage S} {t : Turn S} (best : h.bestScore = h.last.score)
    (same : t.spot = h.last) : (h.extend t).bestScore = h.last.score := by
  cases taken : t.taken with
  | false =>
    rw [Passage.bestScore, Passage.taken_extend, taken]
    exact best
  | true =>
    have level : t.score = h.last.score := congrArg Spot.score same
    rw [bestScore_extend taken, level, best, ite_self]

theorem Passage.Climbs.last_stands {h : Passage S} (climbed : h.Climbs kept height room peak) :
    h.last.Stands kept height :=
  climbed.stands h.last (List.mem_of_getLast? h.getLast?_currents)

theorem Passage.Climbs.stands_extend {h : Passage S} (climbed : h.Climbs kept height room peak) {t : Turn S}
    (next : (t.lead h.last).Stands kept height) :
    ∀ v ∈ (h.extend t).currents, v.Stands kept height := by
  intro v member
  rw [currents_extend] at member
  rcases List.mem_append.mp member with before | here
  · exact climbed.stands v before
  · rw [List.mem_singleton.mp here]
    exact next

theorem Passage.Climbs.rises_extend {h : Passage S} (climbed : h.Climbs kept height room peak) {t : Turn S}
    (here : t.proposal.stop = false → (h.extend t).RisesAt height h.turns.length) :
    ∀ k u, (h.extend t).turns[k]? = some u → u.proposal.stop = false →
      (h.extend t).RisesAt height k := by
  intro k u found unraised
  rcases getElem?_concat_cases found with before | ⟨rfl, rfl⟩
  · exact (climbed.rises k u before unraised).extend t
  · exact here unraised

theorem Passage.Climbs.extend (climbs : p.Climbs kept height room peak) {h : Passage S}
    (climbed : h.Climbs kept height room peak) {t : Turn S} (turn : t.Climbs kept height peak h.last) :
    (h.extend t).Climbs kept height room peak := by
  have spent := climbed.spent
  cases turn with
  | rises goes next higher above taken =>
    -- The room above the new state is smaller by at least the turn that is counted.
    have led := lead_of_taken h.last taken
    have less := climbs.less h.last.state t.spot.state climbed.last_stands.held next.held higher
    rw [← led] at next higher above
    refine ⟨climbed.stands_extend next, ?_, ?_, ?_, ?_⟩
    · rw [last_extend, led, countP_goes_extend, goes, if_neg Bool.false_ne_true, start_extend]
      omega
    · rw [last_extend, bestScore_extend taken, climbed.best]
      rw [led] at above ⊢
      exact if_pos above
    · exact climbed.rises_extend fun _ => risesAt_extend above higher
    · intro u found raised
      rw [turns_extend, List.getLast?_concat, Option.some.injEq] at found
      rw [← found, goes] at raised
      cases raised
  | rests raised top same =>
    -- The proposal is the current state, so it makes no difference whether it is taken.
    have led := lead_of_same same
    have still : (t.lead h.last).Stands kept height := by
      rw [led]
      exact climbed.last_stands
    refine ⟨climbed.stands_extend still, ?_, ?_, ?_, ?_⟩
    · rw [last_extend, led, countP_goes_extend, raised]
      exact spent
    · rw [last_extend, led]
      exact bestScore_of_same climbed.best same
    · apply climbed.rises_extend
      intro unraised
      rw [raised] at unraised
      cases unraised
    · intro _ _ _
      rw [last_extend, led]
      exact top

theorem Made.climbs (climbs : p.Climbs kept height room peak) {origin rest : σ} {h : Passage S}
    (made : Made p origin h rest) : h.Climbs kept height room peak := by
  induction made with
  | start drawn scored warmed =>
    have held := climbs.sound.start.of_eq_ok drawn
    rw [climbs.evaluate _ held] at scored
    refine ⟨?_, Nat.le_refl _, rfl, ?_, ?_⟩
    · intro v member
      rw [List.mem_singleton.mp member]
      exact ⟨held, (Except.ok.inj scored).symm⟩
    · intro k t found
      cases found
    · intro t found
      cases found
  | turn before proposed scored decided ih =>
    exact ih.extend climbs (climbs.turn ih.last_stands proposed scored decided)

theorem countP_of_goes {h : Passage S} (goes : h.Goes limits) :
    h.turns.countP (!·.proposal.stop) = h.turns.length := by
  rw [List.countP_eq_length]
  intro t member
  rw [goes.unsignalled t member]
  rfl

theorem length_le_of_stops {h : Passage S} {reason : StopReason} (stops : h.Stops limits reason) :
    h.turns.length ≤ h.turns.countP (!·.proposal.stop) + 1 := by
  cases stops with
  | stepLimit goes spent =>
    rw [countP_of_goes goes]
    exact Nat.le_succ _
  | signal goes within raised =>
    rw [countP_goes_extend, countP_of_goes goes, Passage.turns_extend, List.length_append]
    exact Nat.add_le_add_right (Nat.le_add_right _ _) 1
  | stagnation goes within unraised flat =>
    rw [countP_goes_extend, countP_of_goes goes, Passage.turns_extend, List.length_append]
    exact Nat.add_le_add_right (Nat.le_add_right _ _) 1

structure Restart.ClimbsTo (room : S → Nat) (peak : S → Prop) (h : Passage S) (r : Restart) : Prop where
  steps : r.steps = .ofNat h.turns.length
  turns_le : h.turns.length ≤ room h.start.state + 1
  final : h.currents.getLast?.map (·.score) = some r.finalScore
  best : r.finalScore = r.bestScore
  signal : r.stopReason = .signal → ∃ v, h.currents.getLast? = some v ∧ peak v.state

theorem Passage.Climbs.record {h : Passage S} (climbed : h.Climbs kept height room peak) {r : Restart}
    (tells : r.TellsOf limits h) : r.ClimbsTo room peak h := by
  obtain ⟨reason, stops, rfl⟩ := tells
  refine ⟨rfl, ?_, ?_, climbed.best.symm, ?_⟩
  · have spent := climbed.spent
    have counted := length_le_of_stops stops
    omega
  · rw [h.getLast?_currents]
    rfl
  · intro equal
    refine ⟨h.last, h.getLast?_currents, ?_⟩
    cases stops with
    | stepLimit => cases equal
    | signal goes within raised => exact climbed.rests _ (by simp) raised
    | stagnation => cases equal

-- A restart that runs out of fuel has made a turn with each unit of it, and none of them gave a reason.
theorem run_walk_exhausts (sound : p.Sound kept) {fuel : Nat} {earlier : Best S} {h : Passage S}
    {origin source : σ} {cause : Fault} (made : Made p origin h source) (goes : h.Goes limits)
    (keeps : (h.walk limits p.cool earlier).Keeps kept)
    (failed : (h.walk limits p.cool earlier).run p limits fuel source = .error cause) :
    ∃ full rest, Made p origin full rest ∧ full.Goes limits ∧ full.turns.length = h.turns.length + fuel := by
  induction fuel generalizing h source with
  | zero => exact ⟨h, source, made, goes, rfl⟩
  | succ fuel ih =>
    unfold Walk.run at failed
    split at failed
    · cases failed
    · rename_i going
      obtain ⟨⟨next, found⟩, between, moved, held, _⟩ :=
        (step_always sound limits.threshold keeps).eq_ok source
      rw [Draw.bind_of_eq_ok moved] at failed
      obtain ⟨t, after, rfl, judged⟩ := step_history made goes going moved
      cases found with
      | some found => cases failed
      | none =>
        obtain ⟨full, rest, complete, further, counted⟩ := ih (h := h.extend t) after judged held failed
        refine ⟨full, rest, complete, further, ?_⟩
        rw [counted, Passage.turns_extend, List.length_append, List.length_singleton]
        omega

theorem restart_exhausts (sound : p.Sound kept) {fuel : Nat} {earlier : Best S} (keeps : earlier.Keeps kept)
    {source : σ} {cause : Fault} (failed : restart p limits fuel earlier source = .error cause) :
    NoRoom limits cause ∨ ∃ h rest, Made p source h rest ∧ h.Goes limits ∧ h.turns.length = fuel := by
  rcases Draw.bind_eq_error failed with unstarted | ⟨first, between, started, walked⟩
  · exact .inl ((start_ends sound keeps).of_eq_error unstarted)
  · obtain ⟨held, _⟩ := (start_ends sound keeps).of_eq_ok started
    obtain ⟨h, unmoved, made, rfl⟩ := start_eq_ok started
    rcases Draw.bind_eq_error walked with stuck | ⟨_, _, _, recorded⟩
    · obtain ⟨full, rest, complete, goes, counted⟩ :=
        run_walk_exhausts sound made (goes_of_nil unmoved) held stuck
      rw [unmoved, List.length_nil, Nat.zero_add] at counted
      exact .inr ⟨full, rest, complete, goes, counted⟩
    · cases recorded

theorem restarts_exhausts (sound : p.Sound kept) {fuel count : Nat} {o : Outcome S}
    (keeps : o.best.Keeps kept) {source : σ} {cause : Fault}
    (failed : restarts p limits fuel count o source = .error cause) :
    NoRoom limits cause ∨
      ∃ h origin rest, Made p origin h rest ∧ h.Goes limits ∧ h.turns.length = fuel := by
  induction count generalizing o source with
  | zero => cases failed
  | succ count ih =>
    rcases Draw.bind_eq_error failed with stuck | ⟨⟨best, record⟩, between, once, later⟩
    · rcases restart_exhausts sound keeps stuck with full | ⟨h, rest, exhausted⟩
      · exact .inl full
      · exact .inr ⟨h, source, rest, exhausted⟩
    · exact ih ((restart_ends sound fuel keeps).of_eq_ok once) later

-- With more fuel than there is room above any state, only the window can be too large for a run.
theorem run_climbs (limits : Limits) (climbs : p.Climbs kept height room peak) {fuel : Nat}
    (bound : ∀ s, kept s → room s < fuel) (source : σ) :
    (run p limits fuel source = .error .capacity ∧ tableLimit ≤ 8 * limits.windowSize) ∨
      ∃ o rest, run p limits fuel source = .ok (o, rest) := by
  cases ran : run p limits fuel source with
  | ok pair => exact .inr ⟨pair.1, pair.2, rfl⟩
  | error cause =>
    left
    rcases restarts_exhausts climbs.sound (nothing_keeps kept) ran with ⟨rfl, large⟩ | exhausted
    · exact ⟨rfl, large⟩
    · obtain ⟨h, origin, rest, made, goes, counted⟩ := exhausted
      have climbed := made.climbs climbs
      have spent := climbed.spent
      have short := bound h.start.state (climbed.stands h.start List.mem_cons_self).held
      rw [countP_of_goes goes, counted] at spent
      omega

end Climbing

end WeightedCnf.Annealing
