import WeightedCnf.Command.Folder
import WeightedCnf.Proofs.Command.Action
import WeightedCnf.Proofs.Formula.Size
import WeightedCnf.Proofs.LocalSearch.Solver
import WeightedCnf.Random.Scripted
import WeightedCnf.Proofs.Model.Reading

namespace WeightedCnf.Command

open BranchBound LocalSearch State

-- The sources that a seed, or no seed, can give a run.
def Environment.Draws {W σ : Type} (env : Environment (StateM W) σ) (seed : Option Nat) (source : σ) :
    Prop :=
  match seed with
  | some n => source = env.seeded n.toUInt64
  | none => ∃ w w', env.unseeded w = (source, w')

inductive Finds {W σ : Type} [WordSource σ] (env : Environment (StateM W) σ) (f : Formula) :
    Method → Report → Prop where
  | exactly {outcome : BranchBound.Outcome} (searched : BranchBound.solve f = .ok outcome) :
    Finds env f .branchBound (.ofSearch f outcome)
  | annealed {settings : Settings} {solver : Solver} {source rest : σ} {result : Result}
    (checked : settings.validate = .ok ()) (prepared : Solver.prepare f settings = .ok solver)
    (drawn : env.Draws settings.seed source)
    (ran : solver.runWithin env.allowance source = .ok (result, rest)) :
    Finds env f .annealing (.ofAnnealing f result)

section Solve

variable {W σ : Type} [WordSource σ] {env : Environment (StateM W) σ} {w w' : W}
  {entries entries' : List LogEntry} {f : Formula}

omit [WordSource σ] in
theorem runs_readFormula_iff {path : String} {bytes : ByteArray} (stored : env.Holds w path bytes) :
    Runs (readFormula env path) entries w f entries' w' ↔
      Formula.ofBytes bytes = .ok f ∧ entries ++ [logParsed f] = entries' ∧ w = w' := by
  unfold readFormula
  constructor
  · intro ran
    obtain ⟨_, _, _, opened, ran⟩ := runs_bind_iff.mp ran
    obtain ⟨given, rfl⟩ := runs_lift_iff.mp opened
    rw [stored] at given
    cases given
    obtain ⟨_, _, _, passed, ran⟩ := runs_bind_iff.mp ran
    obtain ⟨given, rfl, rfl⟩ := runs_orFail_iff.mp passed
    cases given
    obtain ⟨_, _, _, parsed, ran⟩ := runs_bind_iff.mp ran
    obtain ⟨read, rfl, rfl⟩ := runs_orFail_iff.mp parsed
    obtain ⟨_, _, _, logged, ran⟩ := runs_bind_iff.mp ran
    obtain ⟨rfl, rfl⟩ := runs_log_iff.mp logged
    obtain ⟨rfl, rfl, rfl⟩ := runs_pure_iff.mp ran
    exact ⟨read, rfl, rfl⟩
  · rintro ⟨read, rfl, rfl⟩
    refine runs_bind_iff.mpr ⟨_, _, _, runs_lift_iff.mpr ⟨stored, rfl⟩, ?_⟩
    refine runs_bind_iff.mpr ⟨bytes, _, _, runs_orFail_iff.mpr ⟨rfl, rfl, rfl⟩, ?_⟩
    refine runs_bind_iff.mpr ⟨f, _, _, runs_orFail_iff.mpr ⟨read, rfl, rfl⟩, ?_⟩
    refine runs_bind_iff.mpr ⟨(), _, _, runs_log_iff.mpr ⟨rfl, rfl⟩, ?_⟩
    exact runs_pure_iff.mpr ⟨rfl, rfl, rfl⟩

theorem solveExactly_finds {report : Report} (ran : Runs (solveExactly f) entries w report entries' w') :
    Finds env f .branchBound report := by
  unfold solveExactly at ran
  obtain ⟨_, _, _, _, ran⟩ := runs_bind_iff.mp ran
  obtain ⟨outcome, _, _, searched, ran⟩ := runs_bind_iff.mp ran
  obtain ⟨_, _, _, _, ran⟩ := runs_bind_iff.mp ran
  obtain ⟨rfl, _⟩ := runs_pure_iff.mp ran
  exact .exactly (runs_orFault_iff.mp searched).1

theorem sourced_finds {settings : Settings} {solver : Solver} {source : σ} {report : Report}
    (checked : settings.validate = .ok ()) (prepared : Solver.prepare f settings = .ok solver)
    (drawn : env.Draws settings.seed source)
    (ran : Runs (do
      log [logAnnealingStart f settings.restarts]
      let (result, _) ← orFault (solver.runWithin env.allowance source)
      log (logAnnealing result)
      return .ofAnnealing f result) entries w report entries' w') : Finds env f .annealing report := by
  obtain ⟨_, _, _, _, ran⟩ := runs_bind_iff.mp ran
  obtain ⟨⟨result, rest⟩, _, _, annealed, ran⟩ := runs_bind_iff.mp ran
  obtain ⟨_, _, _, _, ran⟩ := runs_bind_iff.mp ran
  obtain ⟨rfl, _⟩ := runs_pure_iff.mp ran
  exact .annealed checked prepared drawn (runs_orFault_iff.mp annealed).1

theorem solveByAnnealing_finds {options : SolveOptions} {report : Report}
    (ran : Runs (solveByAnnealing env options f) entries w report entries' w') :
    Finds env f .annealing report := by
  unfold solveByAnnealing at ran
  obtain ⟨found, _, _, _, ran⟩ := runs_bind_iff.mp ran
  obtain ⟨_, _, _, passed, ran⟩ := runs_bind_iff.mp ran
  obtain ⟨_, _, _, _, ran⟩ := runs_bind_iff.mp ran
  obtain ⟨solver, _, _, made, ran⟩ := runs_bind_iff.mp ran
  have checked := (runs_orFail_iff.mp passed).1
  have prepared := (runs_orFail_iff.mp made).1
  generalize override options found = settings at checked prepared ran
  dsimp only at ran
  cases seed : settings.seed with
  | some n =>
    rw [seed] at ran
    obtain ⟨source, _, _, given, ran⟩ := runs_bind_iff.mp ran
    obtain ⟨rfl, _⟩ := runs_pure_iff.mp given
    exact sourced_finds checked prepared (by rw [seed]; rfl) ran
  | none =>
    rw [seed] at ran
    obtain ⟨source, _, v, given, ran⟩ := runs_bind_iff.mp ran
    obtain ⟨drawn, _⟩ := runs_lift_iff.mp given
    exact sourced_finds checked prepared (by rw [seed]; exact ⟨_, v, drawn⟩) ran

def search (env : Environment (StateM W) σ) (options : SolveOptions) (f : Formula) :
    Action (StateM W) Report :=
  match options.method.getD .branchBound with
  | .branchBound => solveExactly f
  | .annealing => solveByAnnealing env options f

def deliver (env : Environment (StateM W) σ) (options : SolveOptions) (report : Report) :
    Action (StateM W) Output := do
  if let (some path, some solution) := (options.output, report.solution) then
    match ← env.write path (Model.line solution.assignment ++ "\n") with
    | .ok _ => pure ()
    | .error cause => throw (.plainFile cause)
  return if options.json then .report report else .answer report.lines

theorem solve_parts (env : Environment (StateM W) σ) (input : String) (options : SolveOptions) :
    solve env input options = (do
      log [⟨.info, "Loading problem from " ++ Text.quoted input⟩]
      let f ← readFormula env input
      log [⟨.info, s!"Problem: {f.nVars} variables, {f.numClauses} clauses"⟩]
      deliver env options (← search env options f)) := by
  unfold solve search
  cases options.method.getD .branchBound <;> rfl

theorem search_finds {options : SolveOptions} {report : Report}
    (ran : Runs (search env options f) entries w report entries' w') :
    Finds env f (options.method.getD .branchBound) report := by
  unfold search at ran
  cases method : options.method.getD .branchBound with
  | branchBound =>
    rw [method] at ran
    exact solveExactly_finds ran
  | annealing =>
    rw [method] at ran
    exact solveByAnnealing_finds ran

omit [WordSource σ] in
theorem deliver_writes {options : SolveOptions} {report : Report} {printed : List String}
    (ran : Runs (deliver env options report) entries w (.answer printed) entries' w') :
    printed = report.lines ∧ ∀ path s, options.output = some path → report.solution = some s →
      env.write path (Model.line s.assignment ++ "\n") w = (.ok (), w') := by
  unfold deliver at ran
  generalize chosen : (if options.json then Output.report report else .answer report.lines) =
    answer at ran
  have lines : answer = .answer printed → printed = report.lines := by
    rintro rfl
    split at chosen <;> cases chosen
    rfl
  cases output : options.output with
  | none =>
    rw [output] at ran
    obtain ⟨equal, _, _⟩ := runs_pure_iff.mp ran
    exact ⟨lines equal, by rintro _ _ ⟨⟩⟩
  | some path =>
    cases solution : report.solution with
    | none =>
      rw [output, solution] at ran
      obtain ⟨equal, _, _⟩ := runs_pure_iff.mp ran
      exact ⟨lines equal, by rintro _ _ _ ⟨⟩⟩
    | some s =>
      rw [output, solution] at ran
      obtain ⟨written, _, v, wrote, ran⟩ := runs_bind_iff.mp ran
      obtain ⟨wrote, _⟩ := runs_lift_iff.mp wrote
      cases written with
      | error cause =>
        obtain ⟨_, _, _, thrown, _⟩ := runs_bind_iff.mp ran
        exact (not_runs_throw thrown).elim
      | ok =>
        obtain ⟨equal, _, rfl⟩ := runs_pure_iff.mp ran
        refine ⟨lines equal, ?_⟩
        rintro _ _ ⟨⟩ ⟨⟩
        exact wrote

theorem solve_finds {input : String} {bytes : ByteArray} (stored : env.Holds w input bytes)
    {options : SolveOptions} {printed : List String}
    (ran : Runs (solve env input options) entries w (.answer printed) entries' w') :
    ∃ f report, Formula.ofBytes bytes = .ok f ∧ Finds env f (options.method.getD .branchBound) report ∧
      printed = report.lines ∧
      ∀ path s, options.output = some path → report.solution = some s →
        ∃ v, env.write path (Model.line s.assignment ++ "\n") v = (.ok (), w') := by
  rw [solve_parts] at ran
  obtain ⟨_, _, _, logged, ran⟩ := runs_bind_iff.mp ran
  obtain ⟨_, rfl⟩ := runs_log_iff.mp logged
  obtain ⟨f, _, _, read, ran⟩ := runs_bind_iff.mp ran
  obtain ⟨given, _, _⟩ := (runs_readFormula_iff stored).mp read
  obtain ⟨_, _, _, _, ran⟩ := runs_bind_iff.mp ran
  obtain ⟨report, _, v, searched, delivered⟩ := runs_bind_iff.mp ran
  obtain ⟨shown, written⟩ := deliver_writes delivered
  exact ⟨f, report, given, search_finds searched, shown,
    fun path s output solution => ⟨v, written path s output solution⟩⟩

end Solve

section Reports

variable {W σ : Type} [WordSource σ] {env : Environment (StateM W) σ} {f : Formula} {method : Method} {report : Report}

theorem Finds.indexed (finds : Finds env f method report) : ∃ index, Occurrences.ofFormula f = .ok index := by
  cases finds with
  | exactly searched =>
    obtain ⟨index, made, _⟩ := bind_eq_ok_iff.mp searched
    exact ⟨index, made⟩
  | annealed _ prepared _ _ =>
    obtain ⟨index, made, _⟩ := bind_eq_ok_iff.mp prepared
    exact ⟨index, mapError_eq_ok_iff.mp made⟩

theorem Finds.searchable {lines : List (Option (List Char))} (source : Formula.ReadFrom lines f)
    (short : ∀ c ∈ f.clauses, c.size < word32) (finds : Finds env f method report) : f.Searchable :=
  ⟨source.valid_iff.mpr (source.indexed_iff.mp finds.indexed), short⟩

theorem Finds.no_solution (finds : Finds env f method report) (none : report.solution = none) :
    report.lines = ["s UNSATISFIABLE"] := by
  cases finds with
  | @exactly outcome searched =>
    change outcome.solution = .none at none
    simp only [Report.lines, Report.ofSearch, none]
    decide
  | annealed => cases none

-- The solution of a report is the judgement of a total assignment, and its status says whether that is
-- a model.
structure Report.Tells (r : Report) (f : Formula) (s : Solution) (bits : List Bool) : Prop where
  covers : bits.length = f.nVars
  judged : s = ⟨f.weightUnder (valuesOf f.nVars bits),
    f.clauses.countP (Clause.isTrue (valuesOf f.nVars bits)), f.numClauses, ⟨bits.toArray⟩⟩
  model : r.status = .optimum ∨ r.status = .satisfiable ↔ IsModel f bits
  unknown : r.status = .unknown ↔ ¬ IsModel f bits

theorem ofSearch_tells (fit : f.Searchable) {outcome : BranchBound.Outcome}
    (searched : BranchBound.solve f = .ok outcome) {s : Solution} (found : outcome.solution = some s) :
    ∃ bits, (Report.ofSearch f outcome).Tells f s bits := by
  have status : (Report.ofSearch f outcome).status = .optimum := by simp [Report.ofSearch, found]
  rw [solve_eq fit, Except.ok.injEq] at searched
  rw [← searched] at found
  obtain ⟨record, incumbent, rfl⟩ := Option.map_eq_some_iff.mp found
  obtain ⟨bits, rfl, covers, model, _⟩ := walkAll_eq_some fit.toValid incumbent
  have judged := evaluate_noted fit.toValid covers model
  rw [noted, Solution.evaluate_eq fit.toValid covers, Except.ok.injEq] at judged
  refine ⟨bits, covers, judged.symm, ?_, ?_⟩
  · rw [status]
    simp [model]
  · rw [status]
    simp [model]

theorem ofAnnealing_tells {σ : Type} [WordSource σ] (fit : f.Searchable) {settings : Settings}
    (checked : settings.validate = .ok ()) {solver : Solver}
    (prepared : Solver.prepare f settings = .ok solver) {fuel : Nat} {source rest : σ} {result : Result}
    (ran : solver.runWithin fuel source = .ok (result, rest)) :
    ∃ bits, (Report.ofAnnealing f result).Tells f result.solution bits := by
  obtain ⟨l, describes, equal⟩ := prepare_eq fit checked
  rw [equal, Except.ok.injEq] at prepared
  subst prepared
  obtain ⟨bits, covers, _, judged⟩ :=
    runWithin_eq_ok fit describes (restarts_pos_of_validate checked) ran
  have satisfying : result.solution.isSatisfying = true ↔ IsModel f bits := by
    rw [judged]
    exact isSatisfying_iff
  refine ⟨bits, covers, judged, ?_, ?_⟩
  · rw [← satisfying]
    simp only [Report.ofAnnealing]
    cases result.solution.isSatisfying <;> simp
  · rw [← satisfying]
    simp only [Report.ofAnnealing]
    cases result.solution.isSatisfying <;> simp

theorem Finds.tells (fit : f.Searchable) (finds : Finds env f method report) {s : Solution}
    (found : report.solution = some s) : ∃ bits, report.Tells f s bits := by
  cases finds with
  | exactly searched => exact ofSearch_tells fit searched found
  | annealed checked prepared _ ran =>
    cases found
    exact ofAnnealing_tells fit checked prepared ran

end Reports

section Judgement

variable {f : Formula} {bits : List Bool}

theorem firstFalsified_eq (valid : f.Valid) (covers : bits.length = f.nVars) :
    firstFalsified f ⟨bits.toArray⟩ =
      .ok (f.clauses.zipIdx.find? fun (c, _) => !c.isTrue (valuesOf f.nVars bits)) := by
  refine findM?_eq_ok fun numbered member => ?_
  have inside := List.fst_mem_of_mem_zipIdx member
  simp only [Formula.clause_isSatisfiedBy_eq valid covers inside, bind, Except.bind, pure, Except.pure]

def figureLines (weight satisfied numClauses : Nat) : List String :=
  [s!"c {satisfied}/{numClauses} clauses satisfied", s!"o {weight}"]

theorem judge_model (valid : f.Valid) (covers : bits.length = f.nVars) (model : IsModel f bits) :
    judge f ⟨bits.toArray⟩ =
      .ok (figureLines (f.weightUnder (valuesOf f.nVars bits))
        (f.clauses.countP (Clause.isTrue (valuesOf f.nVars bits))) f.numClauses ++ ["s SATISFIED"],
        [], none) := by
  have all : f.clauses.countP (Clause.isTrue (valuesOf f.nVars bits)) = f.numClauses :=
    List.countP_eq_length.mpr (List.all_eq_true.mp model)
  simp only [judge, Formula.countSatisfied_eq valid covers, Formula.weightOf_eq valid covers, all,
    if_true, bind, Except.bind, pure, Except.pure]
  rfl

theorem judge_not_model (valid : f.Valid) (covers : bits.length = f.nVars)
    (falsified : ¬ IsModel f bits) :
    ∃ entries, judge f ⟨bits.toArray⟩ =
      .ok (figureLines (f.weightUnder (valuesOf f.nVars bits))
        (f.clauses.countP (Clause.isTrue (valuesOf f.nVars bits))) f.numClauses ++ ["s NOT SATISFIED"],
        entries, some (.falsified
          (f.numClauses - f.clauses.countP (Clause.isTrue (valuesOf f.nVars bits))) f.numClauses)) := by
  have some : f.clauses.countP (Clause.isTrue (valuesOf f.nVars bits)) ≠ f.numClauses :=
    fun all => falsified (List.all_eq_true.mpr (List.countP_eq_length.mp all))
  simp only [judge, Formula.countSatisfied_eq valid covers, Formula.weightOf_eq valid covers,
    firstFalsified_eq valid covers, some, if_false, bind, Except.bind, pure, Except.pure]
  exact ⟨_, rfl⟩

theorem judge_total (valid : f.Valid) (covers : bits.length = f.nVars) :
    ∃ verdict entries failure, judge f ⟨bits.toArray⟩ =
        .ok (figureLines (f.weightUnder (valuesOf f.nVars bits))
          (f.clauses.countP (Clause.isTrue (valuesOf f.nVars bits))) f.numClauses ++ [verdict],
          entries, failure) ∧
      (verdict = "s SATISFIED" ∧ failure.isNone ↔ IsModel f bits) ∧
      (failure.isSome ↔ ¬ IsModel f bits) := by
  by_cases model : IsModel f bits
  · refine ⟨_, _, _, judge_model valid covers model, ?_, ?_⟩
    · simp [model]
    · simp [model]
  · obtain ⟨entries, judged⟩ := judge_not_model valid covers model
    refine ⟨_, _, _, judged, ?_, ?_⟩
    · simp [model]
    · simp [model]

end Judgement

section Printed

-- What stands on the screen after an answer: its lines, and the time that it took.
def transcript (printed : List String) (seconds : String) : String :=
  String.join ((printed ++ ["c Time: " ++ seconds ++ "s"]).map (· ++ "\n"))

inductive Shows (printed : List String) (a : Assignment) : String → Prop where
  | screen {seconds : String} (single : '\n' ∉ seconds.toList) :
    Shows printed a (transcript printed seconds)
  | file : Shows printed a (Model.line a ++ "\n")

theorem single_line_status (status : Status) : '\n' ∉ ("s " ++ status.text).toList := by
  cases status <;> decide

theorem single_line_weight (weight : Nat) : '\n' ∉ (s!"o {weight}").toList := by
  have digits := Text.single_line_of_isWord (Text.isWord_toString_nat weight)
  change '\n' ∉ ("o " ++ toString weight).toList
  rw [String.toList_append, List.mem_append, not_or]
  exact ⟨by decide, digits⟩

theorem single_line_time {seconds : String} (single : '\n' ∉ seconds.toList) :
    '\n' ∉ ("c Time: " ++ seconds ++ "s").toList := by
  simp only [String.toList_append, List.mem_append, not_or]
  exact ⟨⟨by decide, single⟩, by decide⟩

theorem lines_transcript (status : Status) (weight : Nat) (a : Assignment) {seconds : String}
    (single : '\n' ∉ seconds.toList) :
    Text.lines (transcript ["s " ++ status.text, s!"o {weight}", Model.line a] seconds) =
      [("s " ++ status.text).toList, (s!"o {weight}").toList] ++
        (Model.line a).toList :: [("c Time: " ++ seconds ++ "s").toList] := by
  refine Text.lines_join fun l member => ?_
  simp only [List.cons_append, List.nil_append, List.mem_cons, List.not_mem_nil, or_false] at member
  rcases member with rfl | rfl | rfl | rfl
  · exact single_line_status status
  · exact single_line_weight weight
  · exact Model.single_line a
  · exact single_line_time single

-- Only the line of the model has the mark of a model.
theorem ofBytes_shown {status : Status} {weight : Nat} {values : List Bool} {text : String}
    (small : values.length < tableLimit)
    (held : Shows ["s " ++ status.text, s!"o {weight}", Model.line ⟨values.toArray⟩]
      ⟨values.toArray⟩ text) :
    Model.ofBytes values.length text.toUTF8 = .ok ⟨values.toArray⟩ := by
  cases held with
  | screen single =>
    refine Model.ofBytes_among small ?_ ?_ (lines_transcript status weight ⟨values.toArray⟩ single)
    · intro cs member
      simp only [List.mem_cons, List.not_mem_nil, or_false] at member
      rcases member with rfl | rfl
      · rw [String.toList_append]
        exact Model.marked?_of_word (c := 's') (by decide) (by decide) _
      · change Model.marked? ("o " ++ toString weight).toList = none
        rw [String.toList_append]
        exact Model.marked?_of_word (c := 'o') (by decide) (by decide) _
    · intro cs member
      rw [List.mem_singleton.mp member, String.append_assoc, String.toList_append]
      exact Model.marked?_of_word (c := 'c') (by decide) (by decide) _
  | file =>
    have cut := Text.lines_append (Model.single_line ⟨values.toArray⟩) ""
    rw [String.append_empty, Text.lines_empty] at cut
    exact @Model.ofBytes_among values small _ [] [] (by simp) (by simp) cut

end Printed

section Verify

variable {W σ : Type} [WordSource σ] {env : Environment (StateM W) σ} {w : W} {f : Formula}

omit [WordSource σ] in
theorem runs_readModel {path : String} {bytes : ByteArray} {a : Assignment} {entries : List LogEntry}
    (stored : env.Holds w path bytes) (read : Model.ofBytes f.nVars bytes = .ok a) :
    Runs (readModel env path f.nVars) entries w a entries w := by
  unfold readModel
  refine runs_bind_iff.mpr ⟨_, _, _, runs_lift_iff.mpr ⟨stored, rfl⟩, ?_⟩
  exact runs_orFail_iff.mpr ⟨read, rfl, rfl⟩

theorem perform_verify {input model : String} {bytes text : ByteArray} (stored : env.Holds w input bytes)
    (written : env.Holds w model text) {a : Assignment} {lines : List String} {entries : List LogEntry}
    {failure : Option Failure} (parsed : Formula.ofBytes bytes = .ok f)
    (read : Model.ofBytes f.nVars text = .ok a) (judged : judge f a = .ok (lines, entries, failure))
    (verbosity : Nat) :
    ∃ shown, perform env verbosity (.verify input model) w = (⟨.lines lines, failure, shown⟩, w) := by
  have ran : Runs (verify env input model) [] w (lines, failure) ([logParsed f] ++ entries) w := by
    unfold verify
    refine runs_bind_iff.mpr ⟨f, _, _, (runs_readFormula_iff stored).mpr ⟨parsed, rfl, rfl⟩, ?_⟩
    refine runs_bind_iff.mpr ⟨a, _, _, runs_readModel written read, ?_⟩
    refine runs_bind_iff.mpr ⟨_, _, _, runs_orFault_iff.mpr ⟨judged, rfl, rfl⟩, ?_⟩
    exact runs_bind_iff.mpr ⟨(), _, _, runs_log_iff.mpr ⟨rfl, rfl⟩, runs_pure_iff.mpr ⟨rfl, rfl, rfl⟩⟩
  have asked : Runs (requested env (.verify input model)) [] w (.lines lines, failure)
      ([logParsed f] ++ entries) w :=
    runs_bind_iff.mpr ⟨_, _, _, ran, runs_pure_iff.mpr ⟨rfl, rfl, rfl⟩⟩
  exact ⟨_, perform_of_runs asked verbosity⟩

-- What a later `verify` says of a text that shows the solution of a report.
structure Confirmed (env : Environment (StateM W) σ) (input : String) (f : Formula) (report : Report)
    (s : Solution) (text : String) (later : W) (model : String) (verbosity : Nat) : Prop where
  reads : Model.ofBytes f.nVars text.toUTF8 = .ok s.assignment
  judges : ∃ verdict failure shown,
    perform env verbosity (.verify input model) later =
      (⟨.lines [s!"c {s.satisfied}/{s.numClauses} clauses satisfied", s!"o {s.weight}", verdict],
        failure, shown⟩, later) ∧
    (verdict = "s SATISFIED" ∧ failure.isNone ↔
      report.status = .optimum ∨ report.status = .satisfiable) ∧
    (failure.isSome ↔ report.status = .unknown)

theorem Finds.confirmed {method : Method} {report : Report} {s : Solution} {input model text : String}
    {bytes : ByteArray} (finds : Finds env f method report) (solution : report.solution = some s)
    (parsed : Formula.ofBytes bytes = .ok f) (small : bytes.size < tableLimit) (fit : f.Searchable)
    (held : Shows report.lines s.assignment text) (stored : env.Holds w input bytes)
    (written : env.Holds w model text.toUTF8) (verbosity : Nat) :
    Confirmed env input f report s text w model verbosity := by
  obtain ⟨bits, covers, rfl, claimed, unknown⟩ := finds.tells fit solution
  have fits : bits.length < tableLimit := by
    have few := Formula.nVars_le_size parsed
    omega
  have lines : report.lines = ["s " ++ report.status.text, s!"o {f.weightUnder (valuesOf f.nVars bits)}",
      Model.line ⟨bits.toArray⟩] := by
    rw [Report.lines, solution]
  rw [lines] at held
  have read := ofBytes_shown fits held
  rw [covers] at read
  refine ⟨read, ?_⟩
  obtain ⟨verdict, entries, failure, judged, satisfied, falsified⟩ := judge_total fit.toValid covers
  obtain ⟨shown, performed⟩ := perform_verify stored written parsed read judged verbosity
  exact ⟨verdict, failure, shown, performed, satisfied.trans claimed.symm, falsified.trans unknown.symm⟩

end Verify

-- A run of `solve` that ends in an answer has printed that there is no model, or a solution that every
-- later `verify` of the same formula confirms. No file has more bytes than a table.
theorem verify_confirms_printed_solution {W σ : Type} [WordSource σ]
    {env : Environment (StateM W) σ} {before : W}
    {input : String} {bytes : ByteArray} (stored : env.Holds before input bytes)
    (small : bytes.size < tableLimit)
    (short : ∀ f, Formula.ofBytes bytes = .ok f → ∀ c ∈ f.clauses, c.size < word32)
    {options : SolveOptions} {verbosity : Nat} {printed : List String}
    (solved : (perform env verbosity (.solve input options) before).1.answer? = some printed) :
    printed = ["s UNSATISFIABLE"] ∨
      ∃ f report s, Formula.ofBytes bytes = .ok f ∧ Finds env f (options.method.getD .branchBound) report ∧
        report.solution = some s ∧
        printed = ["s " ++ report.status.text, s!"o {s.weight}", Model.line s.assignment] ∧
        (∀ path, options.output = some path →
          ∃ w, env.write path (Model.line s.assignment ++ "\n") w =
            (.ok (), (perform env verbosity (.solve input options) before).2)) ∧
        ∀ (text : String) (later : W) (model : String) (verbosity : Nat),
          Shows printed s.assignment text → env.Holds later input bytes →
            env.Holds later model text.toUTF8 →
              Confirmed env input f report s text later model verbosity := by
  obtain ⟨entries, ran⟩ := runs_of_answer? solved
  obtain ⟨output, _, _, ran, made⟩ := runs_bind_iff.mp ran
  obtain ⟨equal, _, same⟩ := runs_pure_iff.mp made
  cases equal
  rw [same] at ran
  obtain ⟨f, report, parsed, finds, rfl, wrote⟩ := solve_finds stored ran
  cases solution : report.solution with
  | none => exact .inl (finds.no_solution solution)
  | some s =>
    have lines : report.lines = ["s " ++ report.status.text, s!"o {s.weight}", Model.line s.assignment] := by
      rw [Report.lines, solution]
    have fit := finds.searchable (Formula.ofLines_readFrom parsed) (short f parsed)
    refine .inr ⟨f, report, s, parsed, finds, solution, lines, ?_, ?_⟩
    · exact fun path output => wrote path s output solution
    · intro text later model verbosity held kept written
      exact finds.confirmed solution parsed small fit held kept written verbosity

-- Both methods, a restart of one greedy step for annealing: the file of the model is verified where it
-- was written, and what was printed where it was stored later.
theorem verify_confirms_printed_solution_file :
    let text := "p cnf 2 2\nw 3 1 0\n1 2 0\n-1 -2 0\n"
    let before : Folder := ⟨[(["a.cnf"], text)]⟩
    let env := Folder.environment (fun seed => Scripted.ofWords [seed]) (Scripted.ofWords [7]) 9
    let options : Method → SolveOptions := fun method => { SolveOptions.empty with
      method := some method, output := some "m.txt", samples := some 1, windowSize := some 2
      maxSteps := some 1, start := some .allFalse, move := some .greediest }
    let solved := fun method => perform env 0 (.solve "a.cnf" (options method)) before
    let shown := fun status => transcript [status, "o 3", "v 1 -2 0"] "0.004"
    let later : String → Folder := fun status => ⟨[(["p.txt"], shown status), (["a.cnf"], text)]⟩
    let exhibits : Method → String → Prop := fun method status =>
      (solved method).1.answer? = some [status, "o 3", "v 1 -2 0"] ∧
      (solved method).2.files = [(["m.txt"], "v 1 -2 0\n"), (["a.cnf"], text)] ∧
      ∃ f report s, Finds env f method report ∧
        Confirmed env "a.cnf" f report s "v 1 -2 0\n" (solved method).2 "m.txt" 0 ∧
        Confirmed env "a.cnf" f report s (shown status) (later status) "p.txt" 0
    exhibits .branchBound "s OPTIMUM FOUND" ∧ exhibits .annealing "s SATISFIABLE" := by
  intro text before env options solved shown later exhibits
  have stored : env.Holds before "a.cnf" text.toUTF8 := rfl
  have parsed : Formula.ofBytes text.toUTF8 = .ok (.ofParts 2 [3, 1]
      [⟨[.positive 1, .positive 2]⟩, ⟨[.negative 1, .negative 2]⟩]) :=
    toOption_eq_some_iff.mp (by decide +kernel)
  have short : ∀ f, Formula.ofBytes text.toUTF8 = .ok f → ∀ c ∈ f.clauses, c.size < word32 := by
    intro f read
    rw [parsed] at read
    cases read
    decide
  have exhibited : ∀ method status,
      (solved method).1.answer? = some [status, "o 3", "v 1 -2 0"] →
      (solved method).2.files = [(["m.txt"], "v 1 -2 0\n"), (["a.cnf"], text)] →
      exhibits method status := by
    intro method status answered files
    have after : (solved method).2 = ⟨[(["m.txt"], "v 1 -2 0\n"), (["a.cnf"], text)]⟩ :=
      congrArg Folder.mk files
    refine ⟨answered, files, ?_⟩
    rcases verify_confirms_printed_solution stored (by decide) short answered with none | confirmed
    · cases none
    · obtain ⟨f, report, s, _, finds, _, printed, _, confirmed⟩ := confirmed
      have line : "v 1 -2 0" = Model.line s.assignment := by
        simp only [List.cons.injEq] at printed
        exact printed.2.2.1
      have written := @Shows.file [status, "o 3", "v 1 -2 0"] s.assignment
      rw [← line] at written
      refine ⟨f, report, s, finds, confirmed _ _ _ _ written ?_ ?_,
        confirmed _ _ _ _ (.screen (by decide)) ?_ ?_⟩
      · rw [after]
        rfl
      · rw [after]
        rfl
      · rfl
      · rfl
  exact ⟨exhibited _ _ (by decide +kernel) (by decide +kernel),
    exhibited _ _ (by decide +kernel) (by decide +kernel)⟩

end WeightedCnf.Command
