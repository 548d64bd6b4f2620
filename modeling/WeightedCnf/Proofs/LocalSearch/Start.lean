import Mathlib.Control.Monad.Basic
import WeightedCnf.Proofs.LocalSearch.Moves
import WeightedCnf.Proofs.Occurrences.Lists

namespace WeightedCnf

def Occurrences.frequency (index : Occurrences) (l : Literal) : Nat :=
  match index.clauses l.negated l.var with
  | .ok list => list.size
  | .error _ => 0

def Occurrences.isTied (index : Occurrences) (var : Nat) : Bool :=
  index.frequency (.positive var) == index.frequency (.negative var)

def State.trueLiterals (s : State) : Nat := total (s.tallies.clauses.toList.map (·.trues))

theorem Occurrences.frequency_eq {f : Formula} {index : Occurrences}
    (tables : Tables f f.positions index) {l : Literal} (last : l.var ≤ f.nVars) :
    index.frequency l = (f.positions l).length := by
  rw [frequency, tables.listed l last]
  exact List.size_toArray

namespace State
open BranchBound Occurrences

variable {f : Formula} {index : Occurrences} {decided bits : List Bool}

theorem trueLiterals_recount (f : Formula) (values : Array (Option Bool)) :
    (recount f values).trueLiterals =
      total (f.clauses.map fun c => c.literals.countP (·.truth? values == some true)) := by
  simp [trueLiterals, recount, Tallies.recount, Tally.recount, Function.comp_def]

-- The next variable makes one literal true wherever that one stands.
theorem trueLiterals_next (more : decided.length < f.nVars) (value : Bool) :
    (recount f (valuesOf f.nVars (decided ++ [value]))).trueLiterals =
      (recount f (valuesOf f.nVars decided)).trueLiterals +
        (f.positions ⟨decided.length + 1, !value⟩).length := by
  have sign : (value != true) = !value := by cases value <;> rfl
  rw [← valuesOf_set_next more, trueLiterals_recount, trueLiterals_recount, f.length_positions,
    ← total_map_add]
  refine congrArg total (List.map_congr_left fun c _ => ?_)
  rw [countP_truth?_set (valuesOf_next_free more), sign]

theorem trueLiterals_append {values : List Bool} (fits : decided.length + values.length ≤ f.nVars) :
    (recount f (valuesOf f.nVars (decided ++ values))).trueLiterals =
      (recount f (valuesOf f.nVars decided)).trueLiterals +
        total ((values.zipIdx (decided.length + 1)).map fun (value, var) =>
          (f.positions ⟨var, !value⟩).length) := by
  induction values generalizing decided with
  | nil => simp [total]
  | cons value values ih =>
    simp only [List.length_cons] at fits
    have rest := @ih (decided ++ [value]) (by simp; omega)
    simp only [List.append_assoc, List.singleton_append, List.length_append, List.length_cons,
      List.length_nil, Nat.zero_add] at rest
    rw [rest, trueLiterals_next (by omega), List.zipIdx_cons, List.map_cons, total_cons, Nat.add_assoc]

theorem trueLiterals_nothing (f : Formula) : (recount f (valuesOf f.nVars [])).trueLiterals = 0 := by
  have none : (fun c : Clause => c.literals.countP (·.truth? (valuesOf f.nVars []) == some true)) =
      fun _ => 0 := by
    funext c
    simp [truth?_nothing]
  rw [trueLiterals_recount, none, total_map_zero]

theorem trueLiterals_full (complete : bits.length = f.nVars) :
    (recount f (valuesOf f.nVars bits)).trueLiterals =
      total ((bits.zipIdx 1).map fun (value, var) => (f.positions ⟨var, !value⟩).length) := by
  have all := @trueLiterals_append f [] bits (by simp [complete])
  rwa [List.nil_append, trueLiterals_nothing, Nat.zero_add] at all

def MostFrequent (f : Formula) (bits : List Bool) : Prop :=
  ∀ value var, (value, var) ∈ bits.zipIdx 1 →
    (f.positions ⟨var, value⟩).length ≤ (f.positions ⟨var, !value⟩).length

theorem trueLiterals_le (complete : bits.length = f.nVars) (frequent : MostFrequent f bits)
    {others : List Bool} (same : others.length = f.nVars) :
    (recount f (valuesOf f.nVars others)).trueLiterals ≤
      (recount f (valuesOf f.nVars bits)).trueLiterals := by
  let larger := fun var => max (f.positions ⟨var, false⟩).length (f.positions ⟨var, true⟩).length
  have bound : ∀ values : List Bool, values.length = f.nVars →
      total ((values.zipIdx 1).map fun (_, var) => larger var) = total (f.vars.map larger) := by
    intro values length
    have listed := congrArg (List.map larger) (List.zipIdx_map_snd 1 values)
    rw [List.map_map, length] at listed
    exact congrArg total listed
  have below : total ((others.zipIdx 1).map fun (value, var) => (f.positions ⟨var, !value⟩).length) ≤
      total ((others.zipIdx 1).map fun (_, var) => larger var) := by
    refine total_map_le fun ⟨value, var⟩ _ => ?_
    cases value
    · exact Nat.le_max_right _ _
    · exact Nat.le_max_left _ _
  have attained : (bits.zipIdx 1).map (fun (_, var) => larger var) =
      (bits.zipIdx 1).map fun (value, var) => (f.positions ⟨var, !value⟩).length := by
    refine List.map_congr_left fun ⟨value, var⟩ member => ?_
    have chosen := frequent value var member
    cases value
    · exact Nat.max_eq_right chosen
    · exact Nat.max_eq_left chosen
  rw [trueLiterals_full same, trueLiterals_full complete, ← attained, bound bits complete]
  rwa [bound others same] at below

end State

namespace LocalSearch
open BranchBound State Occurrences

variable {σ : Type} [WordSource σ] {f : Formula} {index : Occurrences}

def afterWords : Nat → σ → σ
  | 0, source => source
  | count + 1, source => afterWords count (WordSource.next32 source).2

theorem afterWords_add (m n : Nat) (source : σ) :
    afterWords (m + n) source = afterWords n (afterWords m source) := by
  induction m generalizing source with
  | zero => rw [Nat.zero_add, afterWords]
  | succ m ih => rw [Nat.succ_add, afterWords, ih, afterWords]

def majorityValue (index : Occurrences) (source : σ) (var : Nat) : Bool :=
  if index.isTied var then 2147483648 ≤ (WordSource.next32 source).1
  else index.frequency (.negative var) < index.frequency (.positive var)

theorem majority_eq (tables : Tables f f.positions index) {var : Nat} (last : var ≤ f.nVars)
    (source : σ) :
    StartRule.majority index var source =
      .ok (majorityValue index source var, afterWords (if index.isTied var then 1 else 0) source) := by
  have positive := tables.listed (.positive var) last
  have negative := tables.listed (.negative var) last
  have more := frequency_eq tables (l := .positive var) last
  have less := frequency_eq tables (l := .negative var) last
  simp only [Literal.positive, Literal.negative] at positive negative more less
  rw [StartRule.majority, Draw.bind_of_eq_ok (Draw.lift_of_eq_ok positive source),
    Draw.bind_of_eq_ok (Draw.lift_of_eq_ok negative source)]
  simp only [majorityValue, isTied, Literal.positive, Literal.negative, more, less, List.size_toArray]
  rcases Nat.lt_trichotomy (f.positions ⟨var, true⟩).length (f.positions ⟨var, false⟩).length
    with below | tied | above
  · have different : (f.positions ⟨var, false⟩).length ≠ (f.positions ⟨var, true⟩).length :=
      Nat.ne_of_gt below
    simp [below, different, afterWords, Draw.pure_eq]
  · simp [tied, afterWords, Draw.bool_eq]
  · have different : (f.positions ⟨var, false⟩).length ≠ (f.positions ⟨var, true⟩).length :=
      Nat.ne_of_lt above
    simp [above, Nat.lt_asymm above, different, afterWords, Draw.pure_eq]

-- Each variable has its value from the source behind the draws of the ties before it.
theorem mapM_majority (tables : Tables f f.positions index) {first count : Nat}
    (last : first + count ≤ f.nVars + 1) (source : σ) :
    ∃ values : List Bool,
      (List.range' first count).mapM (StartRule.majority index) source =
        .ok (values, afterWords ((List.range' first count).countP index.isTied) source) ∧
      values.length = count ∧
      ∀ i, i < count → values[i]? = some (majorityValue index
        (afterWords ((List.range' first i).countP index.isTied) source) (first + i)) := by
  induction count generalizing first source with
  | zero => exact ⟨[], rfl, rfl, nofun⟩
  | succ count ih =>
    have here := majority_eq tables (show first ≤ f.nVars by omega) source
    let next := afterWords (if index.isTied first then 1 else 0) source
    have step : ∀ vars : List Nat, afterWords (vars.countP index.isTied) next =
        afterWords ((first :: vars).countP index.isTied) source := by
      intro vars
      rw [List.countP_cons, Nat.add_comm, afterWords_add]
    obtain ⟨values, drawn, length, each⟩ := @ih (first + 1) (by omega) next
    refine ⟨majorityValue index source first :: values, ?_, by rw [List.length_cons, length], ?_⟩
    · rw [List.range'_succ, List.mapM_cons, Draw.bind_of_eq_ok here, Draw.bind_of_eq_ok drawn, ← step]
      rfl
    · intro i inside
      cases i with
      | zero => rfl
      | succ i =>
        rw [List.getElem?_cons_succ, each i (by omega), step, ← List.range'_succ]
        simp only [Nat.add_assoc, Nat.add_comm 1 i]

theorem mostFrequent_of_majority (tables : Tables f f.positions index) {bits : List Bool}
    (complete : bits.length = f.nVars)
    (chosen : ∀ i, i < f.nVars → ∃ source : σ, bits[i]? = some (majorityValue index source (1 + i))) :
    MostFrequent f bits := by
  intro value var member
  rw [List.mem_zipIdx_iff_le_and_getElem?_sub] at member
  obtain ⟨first, found⟩ := member
  have inside := (List.getElem?_eq_some_iff.mp found).1
  obtain ⟨source, given⟩ := chosen (var - 1) (by omega)
  have last : var ≤ f.nVars := by omega
  have more := frequency_eq tables (l := .positive var) last
  have less := frequency_eq tables (l := .negative var) last
  simp only [Literal.positive, Literal.negative] at more less
  have variable_eq : 1 + (var - 1) = var := by omega
  rw [found, variable_eq, Option.some.injEq] at given
  simp only [majorityValue, isTied, Literal.positive, Literal.negative, more, less] at given
  split at given
  · rename_i tied
    have equal := beq_iff_eq.mp tied
    cases value <;> simp [equal]
  · subst given
    by_cases below : (f.positions ⟨var, true⟩).length < (f.positions ⟨var, false⟩).length
    · simpa [below] using Nat.le_of_lt below
    · simpa [below] using Nat.not_lt.mp below

-- What the greedy rule makes of a source: a total state in which as many literals are true as in any,
-- and one word drawn for each tied variable, from which that variable has its value.
structure StartsGreedily (f : Formula) (index : Occurrences) (source : σ) (s : State) (rest : σ) :
    Prop where
  total : s.IsTotal f index
  largest : ∀ values : List Bool, values.length = f.nVars →
    ∃ other, State.ofValues index values = .ok other ∧ other.trueLiterals ≤ s.trueLiterals
  drawn : rest = afterWords (f.vars.countP index.isTied) source
  chosen : ∀ var, 0 < var → var ≤ f.nVars → s.value var = .ok (some (majorityValue index
    (afterWords ((List.range' 1 (var - 1)).countP index.isTied) source) var))

theorem startsGreedily (fit : f.Searchable) (tables : Tables f f.positions index) (source : σ) :
    ∃ s rest, StartRule.greedy.state index source = .ok (s, rest) ∧
      StartsGreedily f index source s rest := by
  obtain ⟨bits, drawn, complete, each⟩ :=
    @mapM_majority σ _ f index tables 1 f.nVars (by omega) source
  have given : StartRule.greedy.values index source =
      .ok (bits, afterWords (f.vars.countP index.isTied) source) := by
    rw [StartRule.values, tables.nVars_eq]
    exact drawn
  have made := ofValues_eq_recount fit tables complete
  have frequent := mostFrequent_of_majority tables complete fun i inside => ⟨_, each i inside⟩
  refine ⟨recount f (valuesOf f.nVars bits), _, ?_, ?_, ?_, rfl, ?_⟩
  · rw [StartRule.state, Draw.bind_of_eq_ok given]
    exact Draw.lift_of_eq_ok made _
  · exact ⟨bits, complete, valuesOf_full complete, made⟩
  · intro values same
    exact ⟨_, ofValues_eq_recount fit tables same, trueLiterals_le complete frequent same⟩
  · intro var first last
    obtain ⟨i, rfl⟩ : ∃ i, var = 1 + i := ⟨var - 1, by omega⟩
    have known : i < bits.length := by omega
    have value := each i (by omega)
    rw [State.value, entry_eq_ok_iff, recount, Nat.add_comm 1 i, getElem?_valuesOf_decided known, value,
      Nat.add_sub_cancel, Nat.add_comm i 1]

-- Whatever the source delivers.
theorem greedy_start_makes_most_literals_true {nVars : Nat} {weights : List Nat}
    {clauses : List (List Literal)}
    (built : Formula.build nVars weights (clauses.map Clause.ofLiterals) = .ok f)
    (short : ∀ c ∈ f.clauses, c.size < word32) (source : σ) :
    ∃ index s rest, Occurrences.ofFormula f = .ok index ∧
      StartRule.greedy.state index source = .ok (s, rest) ∧ StartsGreedily f index source s rest := by
  have fit : f.Searchable := ⟨Formula.valid_of_build built, short⟩
  obtain ⟨index, made, tables⟩ := ofFormula_tables fit.toValid
  obtain ⟨s, rest, started, greedy⟩ := startsGreedily fit tables source
  exact ⟨index, s, rest, made, started, greedy⟩

-- A literal is repeated, a clause is a tautology, and a clause is empty. Variables 2 and 3 are tied: the
-- first draw makes 2 true, the second one makes 3 false.
theorem greedy_start_makes_most_literals_true_ties :
    let clauses : List (List Literal) := [[.positive 1, .positive 1, .negative 2],
      [.positive 1, .positive 2], [.positive 3, .negative 3], [.negative 1], []]
    let f := Formula.ofParts 3 [1, 2, 3]
      [⟨[.positive 1, .negative 2]⟩, ⟨[.positive 1, .positive 2]⟩, ⟨[.positive 3, .negative 3]⟩,
        ⟨[.negative 1]⟩, ⟨[]⟩]
    let source := Scripted.ofWords [4294967295, 7, 5]
    Formula.build 3 [1, 2, 3] (clauses.map Clause.ofLiterals) = .ok f ∧
      (Occurrences.ofFormula f).map (fun index => StartRule.greedy.values index source) =
        .ok (.ok ([true, true, false], ⟨[5], 7⟩)) ∧
      ∃ index s rest, Occurrences.ofFormula f = .ok index ∧
        StartRule.greedy.state index source = .ok (s, rest) ∧
        StartsGreedily f index source s rest := by
  intro clauses f source
  have built : Formula.build 3 [1, 2, 3] (clauses.map Clause.ofLiterals) = .ok f := rfl
  have short : ∀ c ∈ f.clauses, c.size < word32 := by decide
  have values : (Occurrences.ofFormula f).map (fun index => StartRule.greedy.values index source) =
      .ok (.ok ([true, true, false], ⟨[5], 7⟩)) := by decide +kernel
  exact ⟨built, values, greedy_start_makes_most_literals_true built short source⟩

end LocalSearch

end WeightedCnf
