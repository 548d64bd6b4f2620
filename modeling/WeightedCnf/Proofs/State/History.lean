import WeightedCnf.Proofs.State.Decided

namespace WeightedCnf.State
open BranchBound Occurrences

inductive Change where
  | assign (var : Nat) (value : Bool)
  | unassign (var : Nat)
  | flip (var : Nat)
deriving DecidableEq, Repr

namespace Change

def apply (index : Occurrences) (s : State) : Change → Except Fault State
  | assign var value => s.assign index var value
  | unassign var => s.unassign index var
  | flip var => s.flip index var

def effect (values : Array (Option Bool)) : Change → Array (Option Bool)
  | assign var value => values.setIfInBounds var (some value)
  | unassign var => values.setIfInBounds var none
  | flip var => values.modify var (·.map not)

-- Only a variable without a value is assigned, only one with a value is unassigned or flipped.
def Allowed (nVars : Nat) (values : Array (Option Bool)) : Change → Prop
  | assign var _ => 0 < var ∧ var ≤ nVars ∧ values[var]? = some none
  | unassign var => 0 < var ∧ var ≤ nVars ∧ values[var]?.join.isSome
  | flip var => 0 < var ∧ var ≤ nVars ∧ values[var]?.join.isSome

instance (nVars : Nat) (values : Array (Option Bool)) :
    (c : Change) → Decidable (c.Allowed nVars values)
  | assign var _ => inferInstanceAs (Decidable (0 < var ∧ var ≤ nVars ∧ values[var]? = some none))
  | unassign var => inferInstanceAs (Decidable (0 < var ∧ var ≤ nVars ∧ values[var]?.join.isSome))
  | flip var => inferInstanceAs (Decidable (0 < var ∧ var ≤ nVars ∧ values[var]?.join.isSome))

def AllAllowed (nVars : Nat) : Array (Option Bool) → List Change → Prop
  | _, [] => True
  | values, c :: rest => c.Allowed nVars values ∧ AllAllowed nVars (c.effect values) rest

instance decidableAllAllowed (nVars : Nat) :
    (values : Array (Option Bool)) → (changes : List Change) → Decidable (AllAllowed nVars values changes)
  | _, [] => inferInstanceAs (Decidable True)
  | values, c :: rest =>
    have := decidableAllAllowed nVars (c.effect values) rest
    inferInstanceAs (Decidable (c.Allowed nVars values ∧ AllAllowed nVars (c.effect values) rest))

end Change

-- Where a history starts: with no variable decided, or with a value for each of them.
inductive Origin where
  | blank
  | given (values : List Bool)
deriving DecidableEq, Repr

namespace Origin

def state (index : Occurrences) : Origin → Except Fault State
  | blank => .ok (fresh index)
  | given values => ofValues index values

def decided : Origin → List Bool
  | blank => []
  | given values => values

def Fits (nVars : Nat) : Origin → Prop
  | blank => True
  | given values => values.length = nVars

end Origin

structure History where
  origin : Origin
  changes : List Change
deriving DecidableEq, Repr

namespace History

def run (index : Occurrences) (h : History) : Except Fault State := do
  h.changes.foldlM (Change.apply index) (← h.origin.state index)

def values (nVars : Nat) (h : History) : Array (Option Bool) :=
  h.changes.foldl Change.effect (valuesOf nVars h.origin.decided)

structure Legal (nVars : Nat) (h : History) : Prop where
  fits : h.origin.Fits nVars
  allowed : Change.AllAllowed nVars (valuesOf nVars h.origin.decided) h.changes

end History

variable {f : Formula} {index : Occurrences}

theorem ground_of_isSome {values : Array (Option Bool)} {var : Nat}
    (assigned : values[var]?.join.isSome) :
    ∃ ground value, ground[var]? = some none ∧ values = ground.setIfInBounds var (some value) ∧
      values.setIfInBounds var none = ground ∧
        values.modify var (·.map not) = ground.setIfInBounds var (some !value) := by
  obtain ⟨value, joined⟩ := Option.isSome_iff_exists.mp assigned
  have found : values[var]? = some (some value) := Option.join_eq_some_iff.mp joined
  obtain ⟨inside, equal⟩ := Array.getElem?_eq_some_iff.mp found
  refine ⟨values.setIfInBounds var none, value, by simp [inside], ?_, rfl, ?_⟩
  · apply Array.ext_getElem?
    intro i
    by_cases same : var = i
    · subst same
      simp [inside, equal]
    · simp [Array.getElem?_setIfInBounds_ne same]
  · apply Array.ext_getElem?
    intro i
    by_cases same : var = i
    · subst same
      simp [Array.getElem_modify, inside, equal]
    · simp [Array.getElem?_modify, same]

theorem apply_recount (fit : f.Searchable) (tables : Tables f f.positions index)
    {values : Array (Option Bool)} {c : Change} (allowed : c.Allowed f.nVars values) :
    c.apply index (recount f values) = .ok (recount f (c.effect values)) := by
  cases c with
  | assign var value =>
    obtain ⟨first, last, free⟩ := allowed
    exact assign_recount fit tables first last free value
  | unassign var =>
    obtain ⟨first, last, assigned⟩ := allowed
    obtain ⟨ground, value, free, equal, taken, _⟩ := ground_of_isSome assigned
    rw [Change.effect, taken, equal]
    exact unassign_recount fit tables first last free value
  | flip var =>
    obtain ⟨first, last, assigned⟩ := allowed
    obtain ⟨ground, value, free, equal, _, turned⟩ := ground_of_isSome assigned
    rw [Change.effect, turned, equal]
    exact flip_recount fit tables first last free value

theorem foldlM_apply_recount (fit : f.Searchable) (tables : Tables f f.positions index)
    {values : Array (Option Bool)} {changes : List Change}
    (allowed : Change.AllAllowed f.nVars values changes) :
    changes.foldlM (Change.apply index) (recount f values) =
      .ok (recount f (changes.foldl Change.effect values)) := by
  induction changes generalizing values with
  | nil => rfl
  | cons c changes ih =>
    obtain ⟨here, later⟩ := allowed
    rw [List.foldlM_cons, apply_recount fit tables here]
    exact ih later

theorem state_recount (fit : f.Searchable) (tables : Tables f f.positions index) {origin : Origin}
    (fits : origin.Fits f.nVars) :
    origin.state index = .ok (recount f (valuesOf f.nVars origin.decided)) := by
  cases origin with
  | blank => exact congrArg Except.ok (fresh_eq_recount fit tables)
  | given values => exact ofValues_eq_recount fit tables fits

theorem History.run_recount (fit : f.Searchable) (tables : Tables f f.positions index) {h : History}
    (legal : h.Legal f.nVars) : h.run index = .ok (recount f (h.values f.nVars)) := by
  rw [History.run, state_recount fit tables legal.fits]
  exact foldlM_apply_recount fit tables legal.allowed

theorem mem_unsatisfied_recount {values : Array (Option Bool)} {i : Nat} :
    i ∈ (recount f values).unsatisfied ↔ ∃ c, f.clauses[i]? = some c ∧ c.isTrue values = false := by
  simp only [unsatisfied, recount, Tallies.recount, List.mem_map, List.mem_filter, Prod.exists,
    List.mem_zipIdx_iff_getElem?, List.getElem?_map, Option.map_eq_some_iff]
  constructor
  · rintro ⟨t, _, ⟨⟨c, found, rfl⟩, unmet⟩, rfl⟩
    rw [Tally.isSatisfied_recount, Bool.not_eq_true'] at unmet
    exact ⟨c, found, unmet⟩
  · rintro ⟨c, found, unmet⟩
    refine ⟨Tally.recount values c, i, ⟨⟨c, found, rfl⟩, ?_⟩, rfl⟩
    rw [Tally.isSatisfied_recount, unmet]
    rfl

theorem unsatisfied_ascending (s : State) : s.unsatisfied.Pairwise (· < ·) := by
  have numbers : (s.tallies.clauses.toList.zipIdx.map (·.2)).Pairwise (· < ·) := by
    rw [List.zipIdx_map_snd]
    exact List.pairwise_lt_range'
  exact numbers.sublist (List.filter_sublist.map _)

-- No change of a legal history faults, and the figures of the state that it reaches are those of a
-- count from the formula, whatever was touched on the way.
theorem history_ends_in_recount {nVars : Nat} {weights : List Nat} {clauses : List (List Literal)}
    {f : Formula} (built : Formula.build nVars weights (clauses.map Clause.ofLiterals) = .ok f)
    (short : ∀ c ∈ f.clauses, c.size < word32) {h : History} (legal : h.Legal f.nVars) :
    ∃ index s, Occurrences.ofFormula f = .ok index ∧ h.run index = .ok s ∧
      s = recount f (h.values f.nVars) ∧ s.unsatisfied.Pairwise (· < ·) ∧
        ∀ i, i ∈ s.unsatisfied ↔ ∃ c, f.clauses[i]? = some c ∧ c.isTrue s.values = false := by
  have fit : f.Searchable := ⟨Formula.valid_of_build built, short⟩
  obtain ⟨index, made, tables⟩ := ofFormula_tables fit.toValid
  refine ⟨index, _, made, History.run_recount fit tables legal, rfl, unsatisfied_ascending _, ?_⟩
  intro i
  exact mem_unsatisfied_recount

-- The first clause holds both literals of a variable that is flipped, the last clause holds none.
theorem history_ends_in_recount_tautology :
    let clauses : List (List Literal) :=
      [[.positive 1, .negative 1, .positive 1], [.negative 1, .positive 2], []]
    let f := Formula.ofParts 2 [3, 1]
      [⟨[.positive 1, .negative 1]⟩, ⟨[.negative 1, .positive 2]⟩, ⟨[]⟩]
    let h : History := ⟨.given [true, false], [.flip 1, .unassign 2, .flip 1, .assign 2 true]⟩
    Formula.build 2 [3, 1] (clauses.map Clause.ofLiterals) = .ok f ∧ h.Legal f.nVars ∧
      ∃ index s, Occurrences.ofFormula f = .ok index ∧ h.run index = .ok s ∧
        s = recount f (h.values f.nVars) ∧ s.unsatisfied.Pairwise (· < ·) ∧
          ∀ i, i ∈ s.unsatisfied ↔ ∃ c, f.clauses[i]? = some c ∧ c.isTrue s.values = false := by
  intro clauses f h
  have built : Formula.build 2 [3, 1] (clauses.map Clause.ofLiterals) = .ok f := rfl
  have short : ∀ c ∈ f.clauses, c.size < word32 := by decide
  have legal : h.Legal f.nVars := ⟨rfl, by decide⟩
  exact ⟨built, legal, history_ends_in_recount built short legal⟩

end WeightedCnf.State
