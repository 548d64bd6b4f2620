import WeightedCnf.Proofs.State.History

namespace WeightedCnf.State
open BranchBound Occurrences

namespace Change

def var : Change → Nat
  | assign var _ => var
  | unassign var => var
  | flip var => var

def act : Change → Option Bool → Option Bool
  | assign _ value, _ => some value
  | unassign _, _ => none
  | flip _, old => old.map not

variable {values : Array (Option Bool)} {nVars : Nat} {c d : Change}

theorem getElem?_effect (c : Change) (values : Array (Option Bool)) (i : Nat) :
    (c.effect values)[i]? = if c.var = i then values[i]?.map c.act else values[i]? := by
  cases c with
  | assign var value =>
    simp only [effect, Change.var, Array.getElem?_setIfInBounds]
    by_cases same : var = i
    · subst same
      by_cases inside : var < values.size <;> simp [inside, act]
    · simp [same]
  | unassign var =>
    simp only [effect, Change.var, Array.getElem?_setIfInBounds]
    by_cases same : var = i
    · subst same
      by_cases inside : var < values.size <;> simp [inside, act]
    · simp [same]
  | flip var =>
    simp only [effect, Change.var, Array.getElem?_modify]
    rfl

theorem effect_comm (distinct : c.var ≠ d.var) (values : Array (Option Bool)) :
    d.effect (c.effect values) = c.effect (d.effect values) := by
  apply Array.ext_getElem?
  intro i
  simp only [getElem?_effect]
  by_cases first : c.var = i
  · have second : ¬ d.var = i := fun equal => distinct (first.trans equal.symm)
    simp [first, second]
  · simp [first]

theorem Allowed.after (allowed : d.Allowed nVars values) (distinct : c.var ≠ d.var) :
    d.Allowed nVars (c.effect values) := by
  have kept : (c.effect values)[d.var]? = values[d.var]? := by
    rw [getElem?_effect, if_neg distinct]
  cases d with
  | assign var value =>
    obtain ⟨first, last, free⟩ := allowed
    exact ⟨first, last, kept.trans free⟩
  | unassign var =>
    obtain ⟨first, last, assigned⟩ := allowed
    refine ⟨first, last, ?_⟩
    rw [Change.var] at kept
    rw [kept]
    exact assigned
  | flip var =>
    obtain ⟨first, last, assigned⟩ := allowed
    refine ⟨first, last, ?_⟩
    rw [Change.var] at kept
    rw [kept]
    exact assigned

theorem effect_flip_flip (var : Nat) (values : Array (Option Bool)) :
    (flip var).effect ((flip var).effect values) = values := by
  apply Array.ext_getElem?
  intro i
  simp only [getElem?_effect, Change.var]
  by_cases same : var = i
  · cases values[i]? with
    | none => simp [same]
    | some old => cases old <;> simp [same, act]
  · simp [same]

theorem effect_unassign_assign {var : Nat} {old : Bool} (found : values[var]? = some (some old)) :
    (assign var !old).effect ((unassign var).effect values) = (flip var).effect values := by
  apply Array.ext_getElem?
  intro i
  simp only [getElem?_effect, Change.var]
  by_cases same : var = i
  · subst same
    simp [found, act]
  · simp [same]

end Change

variable {f : Formula} {index : Occurrences} {values : Array (Option Bool)}

theorem agrees_recount_iff {other : Array (Option Bool)} :
    (recount f values).agrees (recount f other) = true ↔ values = other := by
  constructor
  · intro same
    simp only [agrees, recount, Bool.and_eq_true, beq_iff_eq] at same
    exact same.1.1
  · intro equal
    subst equal
    simp [agrees]

theorem apply_apply_recount (fit : f.Searchable) (tables : Tables f f.positions index) {c d : Change}
    (first : c.Allowed f.nVars values) (second : d.Allowed f.nVars (c.effect values)) :
    (c.apply index (recount f values) >>= d.apply index) =
      .ok (recount f (d.effect (c.effect values))) := by
  rw [apply_recount fit tables first]
  exact apply_recount fit tables second

theorem flip_laws (fit : f.Searchable) (tables : Tables f f.positions index) {var : Nat} {old : Bool}
    (first : 0 < var) (last : var ≤ f.nVars) (found : values[var]? = some (some old)) :
    ∃ r, (recount f values).flip index var = .ok r ∧
      ((recount f values).unassign index var >>= fun t => t.assign index var !old) = .ok r ∧
      r.flip index var = .ok (recount f values) := by
  have assigned : values[var]?.join.isSome := by simp [found]
  obtain ⟨inside, _⟩ := Array.getElem?_eq_some_iff.mp found
  have free : ((Change.unassign var).effect values)[var]? = some none := by
    simp [Change.effect, inside]
  have turned : ((Change.flip var).effect values)[var]?.join.isSome := by
    simp [Change.getElem?_effect, Change.var, Change.act, found]
  refine ⟨_, apply_recount fit tables (c := .flip var) ⟨first, last, assigned⟩, ?_, ?_⟩
  · have both := apply_apply_recount fit tables (c := .unassign var) (d := .assign var !old)
      ⟨first, last, assigned⟩ ⟨first, last, free⟩
    rw [Change.effect_unassign_assign found] at both
    exact both
  · have back := apply_recount fit tables (c := .flip var) ⟨first, last, turned⟩
    rw [Change.effect_flip_flip] at back
    exact back

theorem assign_laws (fit : f.Searchable) (tables : Tables f f.positions index) {var : Nat}
    (first : 0 < var) (last : var ≤ f.nVars) (free : values[var]? = some none) (value : Bool) :
    ∃ r, (recount f values).assign index var value = .ok r ∧
      r.unassign index var = .ok (recount f values) :=
  ⟨_, assign_recount fit tables first last free value, unassign_recount fit tables first last free value⟩

theorem changes_commute (fit : f.Searchable) (tables : Tables f f.positions index) {c d : Change}
    (distinct : c.var ≠ d.var) (first : c.Allowed f.nVars values) (second : d.Allowed f.nVars values) :
    ∃ r, (c.apply index (recount f values) >>= d.apply index) = .ok r ∧
      (d.apply index (recount f values) >>= c.apply index) = .ok r := by
  refine ⟨_, apply_apply_recount fit tables first (second.after distinct), ?_⟩
  rw [Change.effect_comm distinct]
  exact apply_apply_recount fit tables second (first.after distinct.symm)

-- Whatever two histories did on the way, equal values mean equal states, totals included, and the
-- comparison of states sees no more and no less than the values. The laws of single changes hold of
-- every state that a history reaches.
theorem histories_agree_exactly_on_values {nVars : Nat} {weights : List Nat}
    {clauses : List (List Literal)} {f : Formula}
    (built : Formula.build nVars weights (clauses.map Clause.ofLiterals) = .ok f)
    (short : ∀ c ∈ f.clauses, c.size < word32) {h k : History} (legal : h.Legal f.nVars)
    (other : k.Legal f.nVars) :
    ∃ index s t, Occurrences.ofFormula f = .ok index ∧ h.run index = .ok s ∧ k.run index = .ok t ∧
      (s.values = t.values → s.tallies.clauses = t.tallies.clauses ∧
        s.tallies.satisfied = t.tallies.satisfied ∧ s.tallies.conflicts = t.tallies.conflicts ∧
        s.trueWeight = t.trueWeight) ∧
      (s.agrees t = true ↔ s.values = t.values) ∧ (s.agrees t = true → s = t) ∧
      (∀ var old, 0 < var → var ≤ f.nVars → s.value var = .ok (some old) →
        ∃ r, s.flip index var = .ok r ∧
          (s.unassign index var >>= fun u => u.assign index var !old) = .ok r ∧
          r.flip index var = .ok s) ∧
      (∀ var value, 0 < var → var ≤ f.nVars → s.value var = .ok none →
        ∃ r, s.assign index var value = .ok r ∧ r.unassign index var = .ok s) ∧
      (∀ c d : Change, c.var ≠ d.var → c.Allowed f.nVars s.values → d.Allowed f.nVars s.values →
        ∃ r, (c.apply index s >>= d.apply index) = .ok r ∧
          (d.apply index s >>= c.apply index) = .ok r) := by
  have fit : f.Searchable := ⟨Formula.valid_of_build built, short⟩
  obtain ⟨index, made, tables⟩ := ofFormula_tables fit.toValid
  refine ⟨index, _, _, made, History.run_recount fit tables legal,
    History.run_recount fit tables other, ?_, agrees_recount_iff, ?_, ?_, ?_, ?_⟩
  · intro equal
    have same : h.values f.nVars = k.values f.nVars := equal
    rw [same]
    exact ⟨rfl, rfl, rfl, rfl⟩
  · intro agrees
    rw [agrees_recount_iff.mp agrees]
  · intro var old first last found
    exact flip_laws fit tables first last (entry_eq_ok_iff.mp found)
  · intro var value first last free
    exact assign_laws fit tables first last (entry_eq_ok_iff.mp free) value
  · intro c d distinct first second
    exact changes_commute fit tables distinct first second

-- The first history touches every variable and ends where the second one starts: with the same values,
-- reached in another order and over flips of a variable with both of its literals in one clause.
theorem histories_agree_exactly_on_values_detour :
    let clauses : List (List Literal) :=
      [[.positive 1, .negative 1, .positive 1], [.negative 1, .positive 2], []]
    let f := Formula.ofParts 2 [3, 1]
      [⟨[.positive 1, .negative 1]⟩, ⟨[.negative 1, .positive 2]⟩, ⟨[]⟩]
    let h : History := ⟨.given [true, false], [.flip 1, .unassign 2, .flip 1, .assign 2 true]⟩
    let k : History := ⟨.blank, [.assign 2 true, .assign 1 true]⟩
    Formula.build 2 [3, 1] (clauses.map Clause.ofLiterals) = .ok f ∧ h.Legal f.nVars ∧
      k.Legal f.nVars ∧ h.values f.nVars = k.values f.nVars ∧
      ∃ index s t, Occurrences.ofFormula f = .ok index ∧ h.run index = .ok s ∧ k.run index = .ok t ∧
        (s.values = t.values → s.tallies.clauses = t.tallies.clauses ∧
          s.tallies.satisfied = t.tallies.satisfied ∧ s.tallies.conflicts = t.tallies.conflicts ∧
          s.trueWeight = t.trueWeight) ∧
        (s.agrees t = true ↔ s.values = t.values) ∧ (s.agrees t = true → s = t) ∧
        (∀ var old, 0 < var → var ≤ f.nVars → s.value var = .ok (some old) →
          ∃ r, s.flip index var = .ok r ∧
            (s.unassign index var >>= fun u => u.assign index var !old) = .ok r ∧
            r.flip index var = .ok s) ∧
        (∀ var value, 0 < var → var ≤ f.nVars → s.value var = .ok none →
          ∃ r, s.assign index var value = .ok r ∧ r.unassign index var = .ok s) ∧
        (∀ c d : Change, c.var ≠ d.var → c.Allowed f.nVars s.values → d.Allowed f.nVars s.values →
          ∃ r, (c.apply index s >>= d.apply index) = .ok r ∧
            (d.apply index s >>= c.apply index) = .ok r) := by
  intro clauses f h k
  have built : Formula.build 2 [3, 1] (clauses.map Clause.ofLiterals) = .ok f := rfl
  have short : ∀ c ∈ f.clauses, c.size < word32 := by decide
  have legal : h.Legal f.nVars := ⟨rfl, by decide⟩
  have other : k.Legal f.nVars := ⟨trivial, by decide⟩
  have meeting : h.values f.nVars = k.values f.nVars := by decide
  exact ⟨built, legal, other, meeting, histories_agree_exactly_on_values built short legal other⟩

end WeightedCnf.State
