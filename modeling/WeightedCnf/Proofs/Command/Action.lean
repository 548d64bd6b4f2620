import WeightedCnf.Command.Run
import WeightedCnf.Proofs.Basic

namespace WeightedCnf.Command

variable {W σ α β : Type}

-- The file at a path holds these bytes; reading it leaves the world as it is.
def Environment.Holds (env : Environment (StateM W) σ) (w : W) (path : String) (bytes : ByteArray) : Prop :=
  env.read path w = (.ok bytes, w)

def Runs (x : Action (StateM W) α) (entries : List LogEntry) (w : W) (a : α)
    (entries' : List LogEntry) (w' : W) : Prop :=
  x.run.run entries w = ((.ok a, entries'), w')

variable {entries entries' : List LogEntry} {w w' : W} {a : α} {b : β}

theorem runs_pure_iff {a' : α} :
    Runs (pure a) entries w a' entries' w' ↔ a = a' ∧ entries = entries' ∧ w = w' := by
  constructor
  · intro ran
    cases ran
    exact ⟨rfl, rfl, rfl⟩
  · rintro ⟨rfl, rfl, rfl⟩
    rfl

theorem runs_bind_iff {x : Action (StateM W) α} {next : α → Action (StateM W) β} :
    Runs (x >>= next) entries w b entries' w' ↔
      ∃ a between v, Runs x entries w a between v ∧ Runs (next a) between v b entries' w' := by
  have step : (x >>= next).run.run entries w =
      match x.run.run entries w with
      | ((.ok a, between), v) => (next a).run.run between v
      | ((.error failure, between), v) => ((.error failure, between), v) := by
    change (ExceptT.bindCont next (x.run.run entries w).1.1).run (x.run.run entries w).1.2
      (x.run.run entries w).2 = _
    rcases x.run.run entries w with ⟨⟨_ | a, between⟩, v⟩ <;> rfl
  unfold Runs
  rw [step]
  rcases x.run.run entries w with ⟨⟨failure | a, between⟩, v⟩
  · constructor
    · intro ran
      cases ran
    · rintro ⟨_, _, _, ran, _⟩
      cases ran
  · constructor
    · intro ran
      exact ⟨a, between, v, rfl, ran⟩
    · rintro ⟨_, _, _, ran, later⟩
      cases ran
      exact later

theorem runs_log_iff {more : List LogEntry} {u : Unit} :
    Runs (log more) entries w u entries' w' ↔ entries ++ more = entries' ∧ w = w' := by
  constructor
  · intro ran
    cases ran
    exact ⟨rfl, rfl⟩
  · rintro ⟨rfl, rfl⟩
    rfl

theorem not_runs_throw {failure : Failure} :
    ¬ Runs (throw failure : Action (StateM W) α) entries w a entries' w' := by
  intro ran
  cases ran

theorem runs_orFail_iff {r : Except Error α} :
    Runs (orFail r) entries w a entries' w' ↔ r = .ok a ∧ entries = entries' ∧ w = w' := by
  cases r with
  | error cause =>
    constructor
    · exact fun ran => (not_runs_throw ran).elim
    · rintro ⟨given, _⟩
      cases given
  | ok b => exact runs_pure_iff.trans (by simp)

theorem runs_orFault_iff {r : Except Fault α} :
    Runs (orFault r) entries w a entries' w' ↔ r = .ok a ∧ entries = entries' ∧ w = w' := by
  have same : (orFault r : Action (StateM W) α) = orFail (r.mapError .fault) := by
    cases r <;> rfl
  rw [same, runs_orFail_iff, mapError_eq_ok_iff]

theorem runs_lift_iff {x : StateM W α} :
    Runs (liftM x) entries w a entries' w' ↔ x w = (a, w') ∧ entries = entries' := by
  have step : (liftM x : Action (StateM W) α).run.run entries w = ((.ok (x w).1, entries), (x w).2) := rfl
  unfold Runs
  rw [step]
  constructor
  · intro ran
    cases ran
    exact ⟨rfl, rfl⟩
  · rintro ⟨given, rfl⟩
    rw [given]

variable [WordSource σ]

def requested (env : Environment (StateM W) σ) : Request → Action (StateM W) (Output × Option Failure)
  | .solve input options => return (← solve env input options, none)
  | .verify input model => do
    let (lines, failure) ← verify env input model
    return (.lines lines, failure)

def Outcome.ofEnd (verbosity : Nat) :
    Except Failure (Output × Option Failure) × List LogEntry → Outcome
  | (.ok (output, failure), entries) => ⟨output, failure, visible verbosity entries⟩
  | (.error failure, entries) => ⟨.lines [], some failure, visible verbosity entries⟩

theorem perform_eq (env : Environment (StateM W) σ) (verbosity : Nat) (request : Request) (w : W) :
    perform env verbosity request w =
      (.ofEnd verbosity ((requested env request).run.run [] w).1,
        ((requested env request).run.run [] w).2) := by
  have same : perform env verbosity request =
      (requested env request).run.run [] >>= fun ended => pure (.ofEnd verbosity ended) := by
    unfold perform
    cases request <;>
    · refine bind_congr fun ended => ?_
      rcases ended with ⟨_ | ⟨output, failure⟩, entries⟩ <;> rfl
  rw [same]
  rfl

variable {env : Environment (StateM W) σ} {request : Request} {output : Output}

theorem perform_of_runs {failure : Option Failure}
    (ran : Runs (requested env request) [] w (output, failure) entries w') (verbosity : Nat) :
    perform env verbosity request w = (⟨output, failure, visible verbosity entries⟩, w') := by
  rw [perform_eq, ran]
  rfl

def Outcome.answer? (o : Outcome) : Option (List String) :=
  match o with
  | ⟨.answer lines, none, _⟩ => some lines
  | _ => none

theorem runs_of_answer? {verbosity : Nat} {printed : List String}
    (answered : (perform env verbosity request w).1.answer? = some printed) :
    ∃ entries, Runs (requested env request) [] w (.answer printed, none) entries
      (perform env verbosity request w).2 := by
  rw [perform_eq] at answered ⊢
  unfold Runs
  generalize (requested env request).run.run [] w = ended at answered ⊢
  obtain ⟨⟨_ | ⟨output, failure⟩, entries⟩, v⟩ := ended
  · cases answered
  · dsimp only [Outcome.ofEnd, Outcome.answer?] at answered ⊢
    split at answered
    · rename_i lines _ equal
      cases equal
      cases answered
      exact ⟨entries, rfl⟩
    · cases answered

end WeightedCnf.Command
