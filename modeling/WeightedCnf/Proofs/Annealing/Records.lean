import WeightedCnf.Proofs.Annealing.History
import WeightedCnf.Proofs.Total
import WeightedCnf.Random.Scripted

namespace WeightedCnf.Annealing

variable {σ S : Type}

-- A record beside the history of its restart. The counters of the record are words; they hold the
-- numbers themselves as long as those fit, and always if the steps are limited.
structure Restart.Accounts (limits : Limits) (h : Passage S) (r : Restart) : Prop where
  steps : r.steps = .ofNat h.turns.length
  accepted : r.accepted = .ofNat h.taken.length
  taken : r.taken.toList = h.taken.map (·.score)
  taken_le : h.taken.length ≤ h.turns.length
  exact : h.turns.length < word64 →
    r.steps.toNat = h.turns.length ∧ r.accepted.toNat = h.taken.length ∧ r.accepted ≤ r.steps
  limited : ∀ max, limits.maxSteps = some max →
    h.turns.length ≤ max.toNat ∧ r.steps.toNat = h.turns.length ∧ r.steps ≤ max
  stepLimit : r.stopReason = .stepLimit → limits.maxSteps = some r.steps ∧
    r.steps.toNat = h.turns.length ∧ (∀ t ∈ h.turns, t.proposal.stop = false) ∧
    ∀ k, 0 < k → k ≤ h.turns.length → ¬ h.StagnantAfter limits k
  signal : r.stopReason = .signal → (∃ t, h.turns.getLast? = some t ∧ t.proposal.stop = true) ∧
    (∀ t ∈ h.turns.dropLast, t.proposal.stop = false) ∧
    ∀ k, 0 < k → k < h.turns.length → ¬ h.StagnantAfter limits k
  stagnation : r.stopReason = .stagnation → 0 < h.turns.length ∧
    limits.windowSize ≤ h.turns.length ∧ (∀ t ∈ h.turns, t.proposal.stop = false) ∧
    meanStep (latest limits.windowSize h.scores) < limits.threshold ∧
    ∀ k, 0 < k → k < h.turns.length → limits.windowSize ≤ k →
      ¬ meanStep (latest limits.windowSize (h.scores.take k)) < limits.threshold

theorem length_taken_le (h : Passage S) : h.taken.length ≤ h.turns.length := by
  rw [Passage.taken, List.length_map]
  exact List.length_filter_le _ _

theorem steps_le_of_stops {limits : Limits} {h : Passage S} {reason : StopReason}
    (stops : h.Stops limits reason) {max : UInt64} (limited : limits.maxSteps = some max) :
    h.turns.length ≤ max.toNat := by
  cases stops with
  | stepLimit goes spent => exact goes.within max limited
  | signal goes within raised =>
    rw [Passage.turns_extend, List.length_append]
    exact within max limited
  | stagnation goes within unraised flat =>
    rw [Passage.turns_extend, List.length_append]
    exact within max limited

-- What holds of all turns but the last one holds of the history before it.
theorem moving_of_extend {limits : Limits} {h : Passage S} (goes : h.Goes limits) {t : Turn S} {k : Nat}
    (first : 0 < k) (before : k < (h.extend t).turns.length) : ¬ (h.extend t).StagnantAfter limits k := by
  rw [Passage.turns_extend, List.length_append, List.length_singleton] at before
  rw [stagnantAfter_extend (Nat.le_of_lt_succ before)]
  exact goes.moving k first (Nat.le_of_lt_succ before)

theorem of_stops_stepLimit {limits : Limits} {h : Passage S} (stops : h.Stops limits .stepLimit) :
    h.Goes limits ∧ limits.maxSteps = some (.ofNat h.turns.length) ∧
      (UInt64.ofNat h.turns.length).toNat = h.turns.length := by
  cases stops with
  | stepLimit goes spent =>
    obtain ⟨max, limited, reached⟩ := Option.map_eq_some_iff.mp spent
    rw [← reached, UInt64.ofNat_toNat]
    exact ⟨goes, limited, rfl⟩

theorem of_stops_signal {limits : Limits} {h : Passage S} (stops : h.Stops limits .signal) :
    (∃ t, h.turns.getLast? = some t ∧ t.proposal.stop = true) ∧
      (∀ t ∈ h.turns.dropLast, t.proposal.stop = false) ∧
      ∀ k, 0 < k → k < h.turns.length → ¬ h.StagnantAfter limits k := by
  cases stops with
  | signal goes within raised =>
    refine ⟨⟨_, by simp, raised⟩, ?_, fun k => moving_of_extend goes⟩
    rw [Passage.turns_extend, List.dropLast_concat]
    exact goes.unsignalled

theorem of_stops_stagnation {limits : Limits} {h : Passage S} (stops : h.Stops limits .stagnation) :
    0 < h.turns.length ∧ limits.windowSize ≤ h.turns.length ∧
      (∀ t ∈ h.turns, t.proposal.stop = false) ∧
      meanStep (latest limits.windowSize h.scores) < limits.threshold ∧
      ∀ k, 0 < k → k < h.turns.length → limits.windowSize ≤ k →
        ¬ meanStep (latest limits.windowSize (h.scores.take k)) < limits.threshold := by
  cases stops with
  | @stagnation h t goes within unraised flat =>
    have steps : h.turns.length + 1 = (h.extend t).turns.length := by simp
    rw [steps] at flat
    obtain ⟨full, mean⟩ := flat
    rw [← Passage.length_scores, List.take_length] at mean
    refine ⟨?_, full, goes.unsignalled_extend unraised, mean, ?_⟩
    · rw [← steps]
      exact Nat.succ_pos _
    · intro k first before filled less
      exact moving_of_extend goes first before ⟨filled, less⟩

theorem toNat_ofNat_turns {limits : Limits} {h : Passage S} {reason : StopReason}
    (stops : h.Stops limits reason) {max : UInt64} (limited : limits.maxSteps = some max) :
    (UInt64.ofNat h.turns.length).toNat = h.turns.length :=
  UInt64.toNat_ofNat_of_lt' (Nat.lt_of_le_of_lt (steps_le_of_stops stops limited) max.toNat_lt)

theorem Restart.TellsOf.accounts {limits : Limits} {h : Passage S} {r : Restart} (tells : r.TellsOf limits h) :
    r.Accounts limits h := by
  obtain ⟨reason, stops, rfl⟩ := tells
  have fewer := length_taken_le h
  refine ⟨rfl, rfl, rfl, fewer, ?_, ?_, ?_, ?_, ?_⟩
  · intro few
    have steps : (UInt64.ofNat h.turns.length).toNat = h.turns.length := UInt64.toNat_ofNat_of_lt' few
    have accepted : (UInt64.ofNat h.taken.length).toNat = h.taken.length :=
      UInt64.toNat_ofNat_of_lt' (Nat.lt_of_le_of_lt fewer few)
    refine ⟨steps, accepted, ?_⟩
    rw [UInt64.le_iff_toNat_le]
    simp only [Passage.record, steps, accepted]
    exact fewer
  · intro max limited
    have few := steps_le_of_stops stops limited
    have exact := toNat_ofNat_turns stops limited
    refine ⟨few, exact, ?_⟩
    rw [UInt64.le_iff_toNat_le]
    simp only [Passage.record, exact]
    exact few
  · intro equal
    cases equal
    obtain ⟨goes, limited, exact⟩ := of_stops_stepLimit stops
    exact ⟨limited, exact, goes.unsignalled, goes.moving⟩
  · intro equal
    cases equal
    exact of_stops_signal stops
  · intro equal
    cases equal
    exact of_stops_stagnation stops

theorem sum_steps_eq {limits : Limits} {history : List (Passage S)} {records : List Restart}
    (accounts : List.Forall₂ (Restart.Accounts limits) history records) (before : Nat) :
    (records.map (·.steps)).foldl (· + ·) (.ofNat before) =
      .ofNat (before + total (history.map (·.turns.length))) := by
  induction accounts generalizing before with
  | nil => rfl
  | cons accounts _ ih =>
    rw [List.map_cons, List.foldl_cons, accounts.steps, ← UInt64.ofNat_add, ih, List.map_cons,
      total_cons, Nat.add_assoc]

theorem map_steps_eq {limits : Limits} {history : List (Passage S)} {records : List Restart}
    (accounts : List.Forall₂ (Restart.Accounts limits) history records)
    (few : total (history.map (·.turns.length)) < word64) :
    history.map (·.turns.length) = records.map (·.steps.toNat) := by
  induction accounts with
  | nil => rfl
  | cons accounts _ ih =>
    rw [List.map_cons, total_cons] at few
    have here := (accounts.exact (by omega)).1
    rw [List.map_cons, List.map_cons, here, ih (by omega)]

-- Every finished run has a history in which each restart ends at the first turn that is a reason to end,
-- and its records tell how many turns there were and which reason it was. The total is the sum of the
-- records in the arithmetic of words, and the number of all turns if that fits a word.
theorem records_account_for_history [WordSource σ] {p : Problem σ S} {limits : Limits} {fuel : Nat}
    {source rest : σ} {o : Outcome S} (ran : run p limits fuel source = .ok (o, rest)) :
    o.restarts.size = limits.restarts ∧
      o.totalSteps = (o.restarts.toList.map (·.steps)).foldl (· + ·) 0 ∧
      ∃ history, Happened p source history rest ∧
        o.totalSteps = .ofNat (total (history.map (·.turns.length))) ∧
        (total (history.map (·.turns.length)) < word64 →
          o.totalSteps.toNat = total (o.restarts.toList.map (·.steps.toNat))) ∧
        List.Forall₂ (Restart.Accounts limits) history o.restarts.toList := by
  obtain ⟨history, counted, happened, tells⟩ := run_history ran
  have records := tells.records.imp fun _ _ told => told.accounts
  have summed : o.totalSteps = .ofNat (total (history.map (·.turns.length))) := by
    have sum := sum_steps_eq records 0
    rw [Nat.zero_add] at sum
    exact tells.totalSteps.trans sum
  refine ⟨?_, tells.totalSteps, history, happened, summed, ?_, records⟩
  · rw [tells.size_restarts, counted]
  · intro few
    rw [summed, UInt64.toNat_ofNat_of_lt' few]
    exact congrArg total (map_steps_eq records few)

-- Every proposal is one larger and is taken. The window of two scores is full after two steps, in which
-- the score changes by one; after three steps it would change by one still.
theorem records_account_for_history_stagnant :
    let p : Problem Scripted Nat :=
      ⟨pure 0, fun n => .ok n.toUInt64.toFloat, fun n => pure ⟨n + 1, false⟩, pure 1.0, fun t => t⟩
    let limits : Limits := ⟨2, 2, 1.5, some 9⟩
    let source := Scripted.ofWords []
    ∃ o rest, run p limits 9 source = .ok (o, rest) ∧
      o.restarts.toList.map (fun r => (r.steps, r.accepted, r.stopReason)) =
        [(2, 2, .stagnation), (2, 2, .stagnation)] ∧ o.totalSteps = 4 ∧
      o.restarts.size = limits.restarts ∧
      o.totalSteps = (o.restarts.toList.map (·.steps)).foldl (· + ·) 0 ∧
      ∃ history, Happened p source history rest ∧
        o.totalSteps = .ofNat (total (history.map (·.turns.length))) ∧
        (total (history.map (·.turns.length)) < word64 →
          o.totalSteps.toNat = total (o.restarts.toList.map (·.steps.toNat))) ∧
        List.Forall₂ (Restart.Accounts limits) history o.restarts.toList := by
  intro p limits source
  have finished : ((run p limits 9 source).toOption.map fun result =>
      (result.1.restarts.toList.map fun r => (r.steps, r.accepted, r.stopReason),
        result.1.totalSteps)) =
      some ([(2, 2, .stagnation), (2, 2, .stagnation)], 4) := by decide +kernel
  obtain ⟨⟨o, rest⟩, found, figures⟩ := Option.map_eq_some_iff.mp finished
  obtain ⟨records, sum⟩ := Prod.mk.inj figures
  have ran := toOption_eq_some_iff.mp found
  exact ⟨o, rest, ran, records, sum, records_account_for_history ran⟩

end WeightedCnf.Annealing
