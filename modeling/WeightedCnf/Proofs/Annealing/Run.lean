import WeightedCnf.Annealing.Run
import WeightedCnf.Proofs.Basic
import WeightedCnf.Proofs.Random.Draw

namespace WeightedCnf.Annealing

variable {σ S : Type} [WordSource σ] {p : Problem σ S} {kept : S → Prop} {limits : Limits}

structure Problem.Sound (p : Problem σ S) (kept : S → Prop) : Prop where
  start : Draw.Always kept p.start
  evaluate : ∀ s, kept s → ∃ score, p.evaluate s = .ok score ∧ (Best.nothing : Best S).score < score
  propose : ∀ s, kept s → Draw.Always (fun q => kept q.state) (p.propose s)
  startTemperature : Draw.Always (fun _ => True) p.startTemperature

-- The walks of a run with the sources that they meet. A restart begins with the best state that the
-- walk before it left behind.
inductive Moment (p : Problem σ S) (limits : Limits) : Walk S → σ → Prop where
  | first {source rest : σ} {w : Walk S}
    (started : Walk.start p limits .nothing source = .ok (w, rest)) : Moment p limits w rest
  | again {source rest : σ} {last w : Walk S} (before : Moment p limits last source)
    (started : Walk.start p limits last.best source = .ok (w, rest)) : Moment p limits w rest
  | step {source rest : σ} {w next : Walk S} {reason : Option StopReason}
    (before : Moment p limits w source)
    (moved : w.step p limits.threshold source = .ok ((next, reason), rest)) : Moment p limits next rest

def Best.Keeps (kept : S → Prop) (best : Best S) : Prop :=
  match best.state with
  | none => best.score = (nothing : Best S).score
  | some s => kept s

structure Walk.Keeps (kept : S → Prop) (w : Walk S) : Prop where
  current : kept w.current
  best : ∃ s, w.best.state = some s ∧ kept s

theorem Walk.Keeps.best_keeps {w : Walk S} (keeps : w.Keeps kept) : w.best.Keeps kept := by
  obtain ⟨s, found, holds⟩ := keeps.best
  rw [Best.Keeps, found]
  exact holds

theorem consider_keeps {best : Best S} (keeps : best.Keeps kept) {s : S} (holds : kept s)
    {score : Float} (above : (Best.nothing : Best S).score < score) :
    ∃ t, (best.consider s score).state = some t ∧ kept t := by
  unfold Best.consider
  split
  · exact ⟨s, rfl, holds⟩
  · rename_i lower
    unfold Best.Keeps at keeps
    split at keeps
    · rw [keeps] at lower
      exact absurd above lower
    · rename_i t found
      exact ⟨t, found, keeps⟩

theorem accept_always (current next temperature : Float) :
    Draw.Always (fun _ => True) (accept current next temperature : Draw σ Bool) := by
  unfold accept
  split
  · exact Draw.ends_pure trivial
  · exact Draw.ends_bind Draw.unit_always fun _ _ => Draw.ends_pure trivial

theorem step_always (sound : p.Sound kept) (threshold : Float) {w : Walk S} (keeps : w.Keeps kept) :
    Draw.Always (fun r => r.1.Keeps kept ∧ r.1.steps = w.steps + 1) (w.step p threshold) := by
  refine Draw.ends_bind (sound.propose w.current keeps.current) fun proposal holds => ?_
  obtain ⟨score, evaluated, above⟩ := sound.evaluate proposal.state holds
  refine Draw.ends_bind (Draw.ends_lift evaluated rfl) fun _ equal => ?_
  subst equal
  refine Draw.ends_bind (accept_always w.score score w.temperature) fun taken _ => ?_
  refine Draw.ends_pure ?_
  cases taken with
  | true => exact ⟨⟨holds, consider_keeps keeps.best_keeps holds above⟩, rfl⟩
  | false => exact ⟨⟨keeps.current, keeps.best⟩, rfl⟩

def NoRoom (limits : Limits) (cause : Fault) : Prop :=
  cause = .capacity ∧ tableLimit ≤ 8 * limits.windowSize

omit [WordSource σ] in
theorem empty_ends (limits : Limits) :
    Draw.Ends (NoRoom limits) (fun _ => True)
      (liftM (Window.empty limits.windowSize) : Draw σ Window) := by
  by_cases room : 8 * limits.windowSize < tableLimit
  · have made : Window.empty limits.windowSize = .ok ⟨limits.windowSize, #[]⟩ := by
      simp [Window.empty, reserve, room, bind, Except.bind, pure, Except.pure]
    exact Draw.ends_lift made trivial
  · intro source
    have refused : Window.empty limits.windowSize = .error .capacity := by
      simp [Window.empty, reserve, room, bind, Except.bind]
    rw [refused]
    exact ⟨rfl, by omega⟩

omit [WordSource σ] in
theorem start_ends (sound : p.Sound kept) {best : Best S} (keeps : best.Keeps kept) :
    Draw.Ends (NoRoom limits) (fun w => w.Keeps kept ∧ w.steps = 0) (Walk.start p limits best) := by
  refine Draw.ends_bind sound.start.ends fun s holds => ?_
  obtain ⟨score, evaluated, above⟩ := sound.evaluate s holds
  refine Draw.ends_bind (Draw.ends_lift evaluated rfl) fun _ equal => ?_
  subst equal
  refine Draw.ends_bind sound.startTemperature.ends fun temperature _ => ?_
  refine Draw.ends_bind (empty_ends limits) fun window _ => ?_
  exact Draw.ends_pure ⟨⟨holds, consider_keeps keeps holds above⟩, rfl⟩

theorem nothing_keeps (kept : S → Prop) : (Best.nothing : Best S).Keeps kept := by
  rfl

theorem Moment.keeps (sound : p.Sound kept) {w : Walk S} {source : σ} (moment : Moment p limits w source) :
    w.Keeps kept := by
  induction moment with
  | first started => exact ((start_ends sound (nothing_keeps kept)).of_eq_ok started).1
  | again _ started ih => exact ((start_ends sound ih.best_keeps).of_eq_ok started).1
  | step _ moved ih => exact ((step_always sound limits.threshold ih).of_eq_ok moved).1

theorem not_exhausted {w : Walk S} {max : UInt64} (going : ¬ w.isExhausted (some max)) :
    w.steps < max := by
  simpa [Walk.isExhausted] using going

-- Every step uses up one unit of the fuel and one step of the limit.
theorem run_walk_ends (sound : p.Sound kept) (fuel : Nat) {w : Walk S} (keeps : w.Keeps kept) :
    Draw.Ends (fun cause => cause = .outOfFuel ∧
        ∀ max, limits.maxSteps = some max → fuel ≤ max.toNat - w.steps.toNat)
      (fun r => r.1.Keeps kept) (w.run p limits fuel) := by
  induction fuel generalizing w with
  | zero => exact Draw.ends_throw ⟨rfl, fun _ _ => Nat.zero_le _⟩
  | succ fuel ih =>
    unfold Walk.run
    split
    · exact Draw.ends_pure keeps
    · rename_i going
      refine Draw.ends_bind (step_always sound limits.threshold keeps).ends ?_
      rintro ⟨next, reason⟩ ⟨holds, counted⟩
      cases reason with
      | some reason => exact Draw.ends_pure holds
      | none =>
        refine (ih holds).mono ?_ fun _ final => final
        rintro cause ⟨rfl, short⟩
        refine ⟨rfl, fun max limited => ?_⟩
        have left := short max limited
        rw [limited] at going
        have before := not_exhausted going
        rw [counted, toNat_succ_of_lt before] at left
        rw [UInt64.lt_iff_toNat_lt] at before
        omega

-- Fuel runs out only in a restart whose step limit, if there is one, is not below the fuel.
def NoFuel (limits : Limits) (fuel : Nat) (cause : Fault) : Prop :=
  cause = .outOfFuel ∧ ∀ max, limits.maxSteps = some max → fuel ≤ max.toNat

theorem restart_ends (sound : p.Sound kept) (fuel : Nat) {best : Best S} (keeps : best.Keeps kept) :
    Draw.Ends (fun cause => NoRoom limits cause ∨ NoFuel limits fuel cause)
      (fun r => r.1.Keeps kept) (restart p limits fuel best) := by
  refine Draw.ends_bind
    ((start_ends sound keeps).mono (fun _ cause => .inl cause) fun _ holds => holds) ?_
  rintro first ⟨holds, unmoved⟩
  refine Draw.ends_bind ((run_walk_ends sound fuel holds).mono ?_ fun _ final => final) ?_
  · rintro cause ⟨rfl, short⟩
    refine .inr ⟨rfl, fun max limited => ?_⟩
    have left := short max limited
    rw [unmoved, UInt64.toNat_zero] at left
    exact left
  · rintro ⟨last, reason⟩ final
    exact Draw.ends_pure final.best_keeps

theorem restarts_ends (sound : p.Sound kept) (fuel count : Nat) {o : Outcome S}
    (keeps : o.best.Keeps kept) :
    Draw.Ends (fun cause => NoRoom limits cause ∨ NoFuel limits fuel cause)
      (fun o => o.best.Keeps kept) (restarts p limits fuel count o) := by
  induction count generalizing o with
  | zero => exact Draw.ends_pure keeps
  | succ count ih =>
    refine Draw.ends_bind (restart_ends sound fuel keeps) ?_
    rintro ⟨best, record⟩ holds
    exact ih holds

theorem run_ends (sound : p.Sound kept) (fuel : Nat) :
    Draw.Ends (fun cause => NoRoom limits cause ∨ NoFuel limits fuel cause)
      (fun o => o.best.Keeps kept) (run p limits fuel) :=
  restarts_ends sound fuel limits.restarts (nothing_keeps kept)

theorem Moment.run {fuel : Nat} {w last : Walk S} {source rest : σ} {reason : StopReason}
    (moment : Moment p limits w source)
    (ran : w.run p limits fuel source = .ok ((last, reason), rest)) : Moment p limits last rest := by
  induction fuel generalizing w source with
  | zero => cases ran
  | succ fuel ih =>
    unfold Walk.run at ran
    split at ran
    · cases ran
      exact moment
    · obtain ⟨⟨next, reason⟩, between, moved, later⟩ := Draw.bind_eq_ok ran
      have after := moment.step moved
      cases reason with
      | some reason =>
        cases later
        exact after
      | none => exact ih after later

def LeftBy (p : Problem σ S) (limits : Limits) (best : Best S) (source : σ) : Prop :=
  ∃ last, Moment p limits last source ∧ best = last.best

theorem restart_leftBy {fuel : Nat} {best after : Best S} {record : Restart} {source rest : σ}
    (before : best = .nothing ∨ LeftBy p limits best source)
    (ran : restart p limits fuel best source = .ok ((after, record), rest)) :
    LeftBy p limits after rest := by
  obtain ⟨first, between, started, walked⟩ := Draw.bind_eq_ok ran
  obtain ⟨⟨last, reason⟩, _, ended, given⟩ := Draw.bind_eq_ok walked
  cases given
  have moment : Moment p limits first between := by
    rcases before with rfl | ⟨earlier, moment, rfl⟩
    · exact .first started
    · exact moment.again started
  exact ⟨last, moment.run ended, rfl⟩

theorem restarts_leftBy {fuel count : Nat} {o final : Outcome S} {source rest : σ}
    (before : LeftBy p limits o.best source)
    (ran : restarts p limits fuel count o source = .ok (final, rest)) :
    LeftBy p limits final.best rest := by
  induction count generalizing o source with
  | zero =>
    cases ran
    exact before
  | succ count ih =>
    obtain ⟨⟨best, record⟩, between, once, later⟩ := Draw.bind_eq_ok ran
    exact @ih ⟨o.push record, best⟩ between (restart_leftBy (.inr before) once) later

theorem run_leftBy {fuel : Nat} (restarted : 0 < limits.restarts) {final : Outcome S} {source rest : σ}
    (ran : run p limits fuel source = .ok (final, rest)) : LeftBy p limits final.best rest := by
  obtain ⟨count, equal⟩ := Nat.exists_eq_succ_of_ne_zero (Nat.ne_of_gt restarted)
  rw [run, equal] at ran
  obtain ⟨⟨best, record⟩, between, once, later⟩ := Draw.bind_eq_ok ran
  have left := restart_leftBy (.inl rfl) once
  exact restarts_leftBy (o := ⟨_, best⟩) left later

end WeightedCnf.Annealing
