import WeightedCnf.Proofs.State.Agreement

namespace WeightedCnf.State
open BranchBound Occurrences

variable {f : Formula} {index : Occurrences} {s : State} {bits : List Bool}

def Reachable (f : Formula) (index : Occurrences) (s : State) : Prop :=
  ∃ h : History, h.Legal f.nVars ∧ h.run index = .ok s

def IsFull (f : Formula) (s : State) : Prop :=
  ∀ var, 0 < var → var ≤ f.nVars → ∃ value, s.value var = .ok (some value)

-- One entry for each variable after an entry 0 without a value.
structure Framed (nVars : Nat) (values : Array (Option Bool)) : Prop where
  size : values.size = nVars + 1
  zero : values[0]? = some none

theorem valuesOf_framed {nVars : Nat} (fits : bits.length ≤ nVars) : Framed nVars (valuesOf nVars bits) :=
  ⟨size_valuesOf fits, by simp [valuesOf]⟩

theorem Framed.effect {nVars : Nat} {values : Array (Option Bool)} (framed : Framed nVars values)
    {c : Change} (allowed : c.Allowed nVars values) : Framed nVars (c.effect values) := by
  have first : 0 < c.var := by cases c <;> exact allowed.1
  refine ⟨?_, ?_⟩
  · rw [← framed.size]
    cases c <;> simp [Change.effect]
  · rw [Change.getElem?_effect, if_neg (Nat.ne_of_gt first), framed.zero]

theorem Framed.effects {nVars : Nat} {values : Array (Option Bool)} (framed : Framed nVars values)
    {changes : List Change} (allowed : Change.AllAllowed nVars values changes) :
    Framed nVars (changes.foldl Change.effect values) := by
  induction changes generalizing values with
  | nil => exact framed
  | cons c changes ih =>
    obtain ⟨here, later⟩ := allowed
    exact ih (framed.effect here) later

theorem History.values_framed {nVars : Nat} {h : History} (legal : h.Legal nVars) :
    Framed nVars (h.values nVars) := by
  have fits : h.origin.decided.length ≤ nVars := by
    have fits := legal.fits
    cases origin : h.origin with
    | blank => exact Nat.zero_le _
    | given values =>
      rw [origin] at fits
      exact Nat.le_of_eq fits
  exact (valuesOf_framed fits).effects legal.allowed

theorem Reachable.eq_recount (fit : f.Searchable) (tables : Tables f f.positions index)
    (reachable : Reachable f index s) : ∃ values, Framed f.nVars values ∧ s = recount f values := by
  obtain ⟨h, legal, ran⟩ := reachable
  rw [History.run_recount fit tables legal, Except.ok.injEq] at ran
  exact ⟨_, History.values_framed legal, ran.symm⟩

theorem valuesOf_full {nVars : Nat} (complete : bits.length = nVars) :
    valuesOf nVars bits = (none :: bits.map some).toArray := by
  simp [valuesOf, complete]

theorem toAssignment_full (complete : bits.length = f.nVars) :
    (recount f (valuesOf f.nVars bits)).toAssignment = ⟨bits.toArray⟩ := by
  simp [toAssignment_recount, completion, complete]

theorem Framed.inside {nVars var : Nat} {values : Array (Option Bool)} {value : Bool}
    (framed : Framed nVars values) (known : values[var]? = some (some value)) : 0 < var ∧ var ≤ nVars := by
  obtain ⟨inside, _⟩ := Array.getElem?_eq_some_iff.mp known
  rw [framed.size] at inside
  refine ⟨Nat.pos_of_ne_zero ?_, by omega⟩
  rintro rfl
  rw [framed.zero] at known
  cases known

-- The values of the variables, where those without one are false.
def closed (values : Array (Option Bool)) : List Bool := values.toList.tail.map (·.getD false)

theorem Framed.length_closed {nVars : Nat} {values : Array (Option Bool)}
    (framed : Framed nVars values) : (closed values).length = nVars := by
  simp [closed, framed.size]

theorem Framed.getElem?_closed {nVars var : Nat} {values : Array (Option Bool)}
    (framed : Framed nVars values) (first : 0 < var) (last : var ≤ nVars) :
    ∃ old, values[var]? = some old ∧
      (valuesOf nVars (closed values))[var]? = some (some (old.getD false)) := by
  obtain ⟨i, rfl⟩ : ∃ i, var = i + 1 := ⟨var - 1, by omega⟩
  have inside : i + 1 < values.size := by rw [framed.size]; omega
  have known : i < (closed values).length := by rw [framed.length_closed]; omega
  refine ⟨values[i + 1], Array.getElem?_eq_getElem inside, ?_⟩
  rw [getElem?_valuesOf_decided known, List.getElem?_eq_getElem known]
  simp [closed]

theorem Framed.eq_valuesOf {nVars : Nat} {values : Array (Option Bool)} (framed : Framed nVars values)
    (full : ∀ var, 0 < var → var ≤ nVars → ∃ value, values[var]? = some (some value)) :
    ∃ bits : List Bool, bits.length = nVars ∧ values = valuesOf nVars bits := by
  have complete := framed.length_closed
  refine ⟨closed values, complete, Array.ext_getElem? fun i => ?_⟩
  cases i with
  | zero => simp [framed.zero, valuesOf]
  | succ i =>
    by_cases inside : i < nVars
    · obtain ⟨value, found⟩ := full (i + 1) (Nat.succ_pos i) inside
      obtain ⟨old, same, listed⟩ := framed.getElem?_closed (Nat.succ_pos i) inside
      rw [found, Option.some.injEq] at same
      rw [found, listed, ← same, Option.getD_some]
    · have size := framed.size
      have sizeClosed := size_valuesOf (Nat.le_of_eq complete)
      rw [Array.getElem?_eq_none (by omega), Array.getElem?_eq_none (by omega)]

theorem full_reachable_iff (fit : f.Searchable) (tables : Tables f f.positions index) :
    Reachable f index s ∧ IsFull f s ↔
      ∃ bits : List Bool, bits.length = f.nVars ∧ s = recount f (valuesOf f.nVars bits) := by
  constructor
  · rintro ⟨reachable, full⟩
    obtain ⟨values, framed, rfl⟩ := reachable.eq_recount fit tables
    obtain ⟨bits, complete, rfl⟩ := framed.eq_valuesOf fun var first last => by
      obtain ⟨value, found⟩ := full var first last
      exact ⟨value, entry_eq_ok_iff.mp found⟩
    exact ⟨bits, complete, rfl⟩
  · rintro ⟨bits, complete, rfl⟩
    refine ⟨⟨⟨.given bits, []⟩, ⟨complete, trivial⟩, ?_⟩, ?_⟩
    · exact History.run_recount fit tables ⟨complete, trivial⟩
    · intro var first last
      obtain ⟨i, rfl⟩ : ∃ i, var = i + 1 := ⟨var - 1, by omega⟩
      have inside : i < bits.length := by omega
      refine ⟨bits[i], entry_eq_ok_iff.mpr ?_⟩
      rw [recount, getElem?_valuesOf_decided inside, List.getElem?_eq_getElem inside]

theorem truth?_full {nVars : Nat} (complete : bits.length = nVars) {l : Literal}
    (inside : 0 < l.var ∧ l.var ≤ nVars) : ∃ truth, l.truth? (valuesOf nVars bits) = some truth := by
  obtain ⟨first, last⟩ := inside
  obtain ⟨i, equal⟩ : ∃ i, l.var = i + 1 := ⟨l.var - 1, by omega⟩
  have known : i < bits.length := by omega
  refine ⟨l.holds bits[i], ?_⟩
  rw [Literal.truth?, equal, getElem?_valuesOf_decided known, List.getElem?_eq_getElem known]
  rfl

theorem isFalse_full {nVars : Nat} (complete : bits.length = nVars) {c : Clause}
    (inside : ∀ l ∈ c.literals, 0 < l.var ∧ l.var ≤ nVars) :
    c.isFalse (valuesOf nVars bits) = !c.isTrue (valuesOf nVars bits) := by
  rw [Clause.isFalse, Clause.isTrue, List.not_any_eq_all_not, Bool.eq_iff_iff, List.all_eq_true,
    List.all_eq_true]
  refine forall₂_congr fun l member => ?_
  obtain ⟨truth, known⟩ := truth?_full complete (inside l member)
  cases truth <;> simp [known]

end WeightedCnf.State
