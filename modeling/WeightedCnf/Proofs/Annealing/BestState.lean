import WeightedCnf.Proofs.Annealing.FloatOrder
import WeightedCnf.Proofs.Annealing.History
import WeightedCnf.Proofs.Basic
import WeightedCnf.Random.Scripted

namespace WeightedCnf.Annealing

variable {σ S : Type}

-- The best of some states, if `before` is the best one before them: the first of the highest, if it is
-- higher than the one before.
structure Best.Leads (before best : Best S) (met : List (Spot S)) : Prop where
  highest : ∀ v ∈ met, ¬ best.score < v.score
  noLower : ¬ best.score < before.score
  first : best = before ∨ ∃ v earlier later, met = earlier ++ v :: later ∧
    best = ⟨v.score, some v.state⟩ ∧ before.score < v.score ∧ ∀ u ∈ earlier, (u.score == v.score) = false

theorem leads_nil (best : Best S) : best.Leads best [] where
  highest v member := by cases member
  noLower := float_lt_irrefl best.score
  first := .inl rfl

theorem Best.Leads.below {before best : Best S} {met : List (Spot S)} (leads : before.Leads best met)
    {score : Float} (higher : best.score < score) : before.score < score := by
  rcases leads.first with rfl | ⟨v, _, _, _, rfl, above, _⟩
  · exact higher
  · exact float_lt_trans above higher

theorem Best.Leads.meet {before best : Best S} {met : List (Spot S)} (leads : before.Leads best met)
    (v : Spot S) : before.Leads (best.meet v) (met ++ [v]) := by
  unfold Best.meet Best.consider
  by_cases higher : best.score < v.score
  · rw [if_pos higher]
    refine ⟨fun u member above => ?_, fun above => ?_, .inr ⟨v, met, [], rfl, rfl, leads.below higher, ?_⟩⟩
    · rcases List.mem_append.mp member with old | new
      · exact leads.highest u old (float_lt_trans higher above)
      · rw [List.mem_singleton.mp new] at above
        exact float_lt_irrefl v.score above
    · exact leads.noLower (float_lt_trans higher above)
    · intro u old
      rw [← Bool.not_eq_true]
      intro equal
      exact leads.highest u old (float_lt_of_lt_of_beq higher equal)
  · rw [if_neg higher]
    refine ⟨fun u member => ?_, leads.noLower, ?_⟩
    · rcases List.mem_append.mp member with old | new
      · exact leads.highest u old
      · rw [List.mem_singleton.mp new]
        exact higher
    · rcases leads.first with same | ⟨u, earlier, later, rfl, found⟩
      · exact .inl same
      · exact .inr ⟨u, earlier, later ++ [v], by simp, found⟩

theorem leads_foldl (before : Best S) (met : List (Spot S)) : before.Leads (met.foldl Best.meet before) met := by
  suffices further : ∀ best seen, before.Leads best seen →
      before.Leads (met.foldl Best.meet best) (seen ++ met) from further before [] (leads_nil before)
  induction met with
  | nil =>
    intro best seen leads
    rw [List.append_nil]
    exact leads
  | cons v met ih =>
    intro best seen leads
    have next := ih (best.meet v) (seen ++ [v]) (leads.meet v)
    rw [List.append_assoc] at next
    exact next

theorem mem_spotsFrom_iff {here v : Spot S} {turns : List (Turn S)} :
    v = here ∨ v ∈ spotsFrom here turns ↔ v = here ∨ v ∈ (turns.filter (·.taken)).map Turn.spot := by
  induction turns generalizing here with
  | nil => rfl
  | cons t turns ih =>
    rw [spotsFrom, List.mem_cons, ih]
    cases outcome : t.taken with
    | false => simp [lead_of_not_taken here outcome, outcome]
    | true => simp [lead_of_taken here outcome, outcome, -List.mem_map]

theorem mem_currents_iff {h : Passage S} {v : Spot S} : v ∈ h.currents ↔ v ∈ h.met := by
  rw [Passage.currents, Passage.met, List.mem_cons, List.mem_cons]
  exact mem_spotsFrom_iff

theorem not_bestScore_lt {h : Passage S} {v : Spot S} (member : v ∈ h.met) : ¬ h.bestScore < v.score := by
  have leads := leads_foldl ⟨h.start.score, some h.start.state⟩ h.taken
  rcases List.mem_cons.mp member with rfl | taken
  · exact leads.noLower
  · exact leads.highest v taken

theorem exists_bestScore (h : Passage S) : ∃ v ∈ h.met, v.score = h.bestScore := by
  rcases (leads_foldl ⟨h.start.score, some h.start.state⟩ h.taken).first with same | found
  · exact ⟨h.start, List.mem_cons_self, congrArg Best.score same.symm⟩
  · obtain ⟨v, earlier, later, listed, equal, _, _⟩ := found
    refine ⟨v, List.mem_cons_of_mem _ ?_, congrArg Best.score equal.symm⟩
    rw [listed]
    exact List.mem_append_cons_self

section Evaluated
variable [WordSource σ] {p : Problem σ S}

theorem Made.evaluated {origin rest : σ} {h : Passage S} (made : Made p origin h rest) :
    ∀ v ∈ h.met, p.evaluate v.state = .ok v.score := by
  induction made with
  | start drawn scored warmed =>
    intro v member
    rw [List.mem_singleton.mp member]
    exact scored
  | turn before proposed scored decided ih =>
    rename_i h t
    intro v member
    rw [Passage.met, Passage.start_extend, Passage.taken_extend] at member
    split at member
    · rw [← List.cons_append] at member
      rcases List.mem_append.mp member with old | new
      · exact ih v old
      · rw [List.mem_singleton.mp new]
        exact scored
    · exact ih v member

theorem Happened.evaluated {origin rest : σ} {history : List (Passage S)}
    (happened : Happened p origin history rest) :
    ∀ v ∈ history.flatMap Passage.met, p.evaluate v.state = .ok v.score := by
  intro v member
  obtain ⟨h, inside, met⟩ := List.mem_flatMap.mp member
  obtain ⟨_, _, made⟩ := happened.made h inside
  exact made.evaluated v met

end Evaluated

structure Restart.ScoresOf (p : Problem σ S) (h : Passage S) (r : Restart) : Prop where
  steps : r.steps = .ofNat h.turns.length
  evaluated : ∀ v ∈ h.currents, p.evaluate v.state = .ok v.score
  first : h.currents.head?.map (·.score) = some r.initialScore
  last : h.currents.getLast?.map (·.score) = some r.finalScore
  highest : ∀ v ∈ h.currents, ¬ r.bestScore < v.score
  attained : ∃ v ∈ h.currents, v.score = r.bestScore

theorem Restart.TellsOf.scoresOf [WordSource σ] {p : Problem σ S} {limits : Limits} {h : Passage S}
    {r : Restart} {before after : σ} (tells : r.TellsOf limits h) (made : Made p before h after) :
    r.ScoresOf p h := by
  obtain ⟨reason, _, rfl⟩ := tells
  refine ⟨rfl, ?_, rfl, ?_, ?_, ?_⟩
  · intro v current
    exact made.evaluated v (mem_currents_iff.mp current)
  · rw [h.getLast?_currents]
    rfl
  · intro v current
    exact not_bestScore_lt (mem_currents_iff.mp current)
  · obtain ⟨v, met, equal⟩ := exists_bestScore h
    exact ⟨v, mem_currents_iff.mpr met, equal⟩

-- The history has what the problem was asked for and what it answered. Scores that are not numbers may be
-- among the answers; they are neither above nor below another one.
theorem best_state_is_first_highest [WordSource σ] {p : Problem σ S} {limits : Limits} {fuel : Nat}
    {source rest : σ} {o : Outcome S} (ran : run p limits fuel source = .ok (o, rest)) :
    ∃ history, history.length = limits.restarts ∧ Happened p source history rest ∧
      (∀ s, o.best.state = some s → p.evaluate s = .ok o.best.score ∧
        ∃ earlier later, history.flatMap Passage.met = earlier ++ ⟨s, o.best.score⟩ :: later ∧
          ∀ v ∈ earlier, (v.score == o.best.score) = false) ∧
      (∀ v ∈ history.flatMap Passage.met, p.evaluate v.state = .ok v.score ∧ ¬ o.best.score < v.score) ∧
      List.Forall₂ (Restart.ScoresOf p) history o.restarts.toList := by
  obtain ⟨history, counted, happened, tells⟩ := run_history ran
  have leads := leads_foldl .nothing (history.flatMap Passage.met)
  rw [← tells.best] at leads
  refine ⟨history, counted, happened, ?_, ?_, ?_⟩
  · intro s found
    rcases leads.first with same | ⟨v, earlier, later, listed, same, _, different⟩
    · rw [same] at found
      cases found
    · rw [same] at found ⊢
      cases found
      have met : v ∈ history.flatMap Passage.met := by
        rw [listed]
        exact List.mem_append_cons_self
      exact ⟨happened.evaluated v met, earlier, later, listed, different⟩
  · intro v met
    exact ⟨happened.evaluated v met, leads.highest v met⟩
  · apply tells.records_made happened
    intro h r before after made told
    exact told.scoresOf made

-- A state knows its restart by the word that was drawn for it. Both restarts climb to the same score, and
-- the best state is one of the first.
theorem best_state_is_first_highest_tie :
    let p : Problem Scripted (UInt64 × Nat) :=
      ⟨do return (← Draw.bits64, 0), fun s => .ok s.2.toUInt64.toFloat,
        fun s => pure ⟨(s.1, s.2 + 1), false⟩, pure 1.0, fun t => t⟩
    let limits : Limits := ⟨2, 2, 1.5, some 9⟩
    let source := Scripted.ofWords [7, 9]
    ∃ o rest, run p limits 9 source = .ok (o, rest) ∧ o.best.state = some (7, 2) ∧
      ∃ history, history.length = limits.restarts ∧ Happened p source history rest ∧
        (∀ s, o.best.state = some s → p.evaluate s = .ok o.best.score ∧
          ∃ earlier later, history.flatMap Passage.met = earlier ++ ⟨s, o.best.score⟩ :: later ∧
            ∀ v ∈ earlier, (v.score == o.best.score) = false) ∧
        (∀ v ∈ history.flatMap Passage.met,
          p.evaluate v.state = .ok v.score ∧ ¬ o.best.score < v.score) ∧
        List.Forall₂ (Restart.ScoresOf p) history o.restarts.toList := by
  intro p limits source
  have finished : ((run p limits 9 source).toOption.map fun result => result.1.best.state) =
      some (some (7, 2)) := by decide +kernel
  obtain ⟨⟨o, rest⟩, found, state⟩ := Option.map_eq_some_iff.mp finished
  have ran := toOption_eq_some_iff.mp found
  exact ⟨o, rest, ran, state, best_state_is_first_highest ran⟩

theorem not_nothing_lt_iff {score : Float} :
    ¬ (Best.nothing : Best S).score < score ↔ score.isNaN = true ∨ (score == -(1.0 / 0.0)) = true := by
  rw [nothing_lt_iff, Decidable.not_and_iff_not_or_not, Bool.not_eq_false, Bool.not_eq_false]
  rfl

-- A run has no best state exactly if none of its states has a score above minus infinity.
theorem best_state_is_missing_iff [WordSource σ] {p : Problem σ S} {limits : Limits} {fuel : Nat}
    {source rest : σ} {o : Outcome S} (ran : run p limits fuel source = .ok (o, rest)) :
    o.restarts.size = limits.restarts ∧
      ∃ history, Happened p source history rest ∧
        List.Forall₂ (Restart.TellsOf limits) history o.restarts.toList ∧
        (∀ v ∈ history.flatMap Passage.met, p.evaluate v.state = .ok v.score) ∧
        (o.best.state = none ↔
          ∀ v ∈ history.flatMap Passage.met, v.score.isNaN = true ∨ (v.score == -(1.0 / 0.0)) = true) := by
  obtain ⟨history, counted, happened, tells⟩ := run_history ran
  have leads := leads_foldl .nothing (history.flatMap Passage.met)
  rw [← tells.best] at leads
  refine ⟨?_, history, happened, tells.records, happened.evaluated, ?_, ?_⟩
  · rw [tells.size_restarts, counted]
  · intro missing v met
    rcases leads.first with same | ⟨u, _, _, _, same, _⟩
    · rw [← not_nothing_lt_iff (S := S), ← same]
      exact leads.highest v met
    · rw [same] at missing
      cases missing
  · intro low
    rcases leads.first with same | ⟨u, earlier, later, listed, _, above, _⟩
    · rw [same]
      rfl
    · have met : u ∈ history.flatMap Passage.met := by
        rw [listed]
        exact List.mem_append_cons_self
      exact absurd above (not_nothing_lt_iff.mpr (low u met))

-- The restart climbs from minus infinity to a number, which is then best.
theorem best_state_is_missing_iff_found :
    let p : Problem Scripted Nat :=
      ⟨pure 0, fun n => .ok (if n = 0 then -(1.0 / 0.0) else 5.0), fun _ => pure ⟨1, true⟩, pure 1.0,
        fun t => t⟩
    let limits : Limits := ⟨2, 1, 0.0, none⟩
    let source := Scripted.ofWords []
    ∃ o rest, run p limits 9 source = .ok (o, rest) ∧ o.best.state = some 1 ∧
      o.restarts.size = limits.restarts ∧
      ∃ history, Happened p source history rest ∧
        List.Forall₂ (Restart.TellsOf limits) history o.restarts.toList ∧
        (∀ v ∈ history.flatMap Passage.met, p.evaluate v.state = .ok v.score) ∧
        (o.best.state = none ↔
          ∀ v ∈ history.flatMap Passage.met, v.score.isNaN = true ∨ (v.score == -(1.0 / 0.0)) = true) := by
  intro p limits source
  have finished : ((run p limits 9 source).toOption.map fun result => result.1.best.state) =
      some (some 1) := by decide +kernel
  obtain ⟨⟨o, rest⟩, found, state⟩ := Option.map_eq_some_iff.mp finished
  have ran := toOption_eq_some_iff.mp found
  exact ⟨o, rest, ran, state, best_state_is_missing_iff ran⟩

-- A restart whose only state has the score minus infinity leaves no best state.
theorem finished_restart_leaves_no_best_state :
    let p : Problem Scripted Nat :=
      ⟨pure 0, fun _ => .ok (-(1.0 / 0.0)), fun n => pure ⟨n, true⟩, pure 1.0, fun t => t⟩
    let limits : Limits := ⟨1, 1, 0.0, some 0⟩
    ∃ o rest, run p limits 9 (Scripted.ofWords [0]) = .ok (o, rest) ∧ o.restarts.size = 1 ∧
      o.best.state = none := by
  intro p limits
  have finished : ((run p limits 9 (Scripted.ofWords [0])).toOption.map fun result =>
      (result.1.restarts.size, result.1.best.state)) = some (1, none) := by decide +kernel
  obtain ⟨⟨o, rest⟩, found, figures⟩ := Option.map_eq_some_iff.mp finished
  obtain ⟨size, state⟩ := Prod.mk.inj figures
  exact ⟨o, rest, toOption_eq_some_iff.mp found, size, state⟩

end WeightedCnf.Annealing
