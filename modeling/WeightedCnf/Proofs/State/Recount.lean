import WeightedCnf.State.Recount
import WeightedCnf.Proofs.Occurrences
import WeightedCnf.Proofs.State.Tallies

-- A variable without a value is the common ground: giving it a value raises the tallies by what a recount
-- finds, and every other change of it is read off from the state in which it has none.

namespace WeightedCnf

namespace Literal

theorem truth?_of_none {values : Array (Option Bool)} {l : Literal}
    (free : values[l.var]? = some none) : l.truth? values = none := by
  simp [truth?, free]

theorem truth?_set_self {values : Array (Option Bool)} {l : Literal} (inside : l.var < values.size)
    (value : Bool) : l.truth? (values.setIfInBounds l.var (some value)) = some (l.holds value) := by
  simp [truth?, inside]

theorem truth?_set_other {values : Array (Option Bool)} {l : Literal} {var : Nat} (other : var ≠ l.var)
    (value : Option Bool) : l.truth? (values.setIfInBounds var value) = l.truth? values := by
  simp [truth?, Array.getElem?_setIfInBounds_ne other]

end Literal

def Extends (values finer : Array (Option Bool)) : Prop :=
  ∀ (var : Nat) (value : Bool), values[var]? = some (some value) → finer[var]? = some (some value)

namespace Extends
variable {values finer : Array (Option Bool)}

theorem truth?_eq (extended : Extends values finer) {l : Literal} {truth : Bool}
    (known : l.truth? values = some truth) : l.truth? finer = some truth := by
  simp only [Literal.truth?, Option.map_eq_some_iff, Option.join_eq_some_iff] at known ⊢
  obtain ⟨value, listed, holds⟩ := known
  exact ⟨value, extended l.var value listed, holds⟩

theorem isTrue (extended : Extends values finer) {c : Clause} (satisfied : c.isTrue values = true) :
    c.isTrue finer = true := by
  simp only [Clause.isTrue, List.any_eq_true, beq_iff_eq] at satisfied ⊢
  obtain ⟨l, member, holds⟩ := satisfied
  exact ⟨l, member, extended.truth?_eq holds⟩

theorem not_isTrue (extended : Extends values finer) {c : Clause} (conflict : c.isFalse values = true) :
    c.isTrue finer = false := by
  simp only [Clause.isTrue, Clause.isFalse, List.all_eq_true, beq_iff_eq, List.any_eq_false] at conflict ⊢
  intro l member
  rw [extended.truth?_eq (conflict l member)]
  simp

end Extends

theorem countP_truth?_set {values : Array (Option Bool)} {var : Nat} (free : values[var]? = some none)
    (value truth : Bool) (ls : List Literal) :
    ls.countP (·.truth? (values.setIfInBounds var (some value)) == some truth) =
      ls.countP (·.truth? values == some truth) + ls.count ⟨var, value != truth⟩ := by
  obtain ⟨inside, _⟩ := Array.getElem?_eq_some_iff.mp free
  induction ls with
  | nil => rfl
  | cons l ls ih =>
    rw [List.countP_cons, List.countP_cons, List.count_cons, ih]
    obtain ⟨here, negated⟩ := l
    by_cases same : here = var
    · subst same
      have before : Literal.truth? values ⟨here, negated⟩ = none := Literal.truth?_of_none free
      have after := Literal.truth?_set_self (l := ⟨here, negated⟩) inside value
      rw [before, after]
      cases negated <;> cases value <;> cases truth <;> simp [Literal.holds] <;> omega
    · have other : var ≠ here := fun equal => same equal.symm
      rw [Literal.truth?_set_other other]
      simp [same]; omega

namespace Tally

-- Of the two literals of the variable, the one with the sign of the value becomes true.
theorem recount_set {values : Array (Option Bool)} {var : Nat} (free : values[var]? = some none)
    (value : Bool) (c : Clause) :
    recount (values.setIfInBounds var (some value)) c =
      ((recount values c).raise value (c.literals.count ⟨var, false⟩)).raise (!value)
        (c.literals.count ⟨var, true⟩) := by
  cases value <;> simp [recount, raise, countP_truth?_set free]

theorem recount_room (values : Array (Option Bool)) (c : Clause) :
    (recount values c).trues + (recount values c).falses ≤ (recount values c).size := by
  simp only [recount, Clause.size]
  induction c.literals with
  | nil => simp
  | cons l ls ih =>
    simp only [List.countP_cons, List.length_cons]
    cases l.truth? values with
    | none => simp; omega
    | some truth => cases truth <;> simp <;> omega

theorem isSatisfied_recount (values : Array (Option Bool)) (c : Clause) :
    (recount values c).isSatisfied = c.isTrue values := by
  rw [Bool.eq_iff_iff, isSatisfied, decide_eq_true_iff, recount, Clause.isTrue, List.any_eq_true]
  exact List.countP_pos_iff

theorem isConflict_recount (values : Array (Option Bool)) (c : Clause) :
    (recount values c).isConflict = c.isFalse values := by
  rw [Bool.eq_iff_iff, isConflict, beq_iff_eq, recount, Clause.isFalse, List.all_eq_true]
  exact List.countP_eq_length

theorem lower_raise_raise (t : Tally) (value : Bool) (m n : Nat) :
    (((t.raise value m).raise (!value) n).lower value m).lower (!value) n = t := by
  cases value <;> simp [raise, lower]

theorem invert_raise_raise (t : Tally) (value : Bool) (m n : Nat) :
    (((t.raise value m).raise (!value) n).invert value m).invert (!value) n =
      (t.raise (!value) m).raise value n := by
  cases value <;> simp [invert, raise, lower] <;> omega

end Tally

namespace Tallies

theorem recount_eq_ofTable (values : Array (Option Bool)) (clauses : List Clause) :
    recount values clauses = ofTable (clauses.map (Tally.recount values)).toArray := by
  have satisfied : Tally.isSatisfied ∘ Tally.recount values = Clause.isTrue values :=
    funext (Tally.isSatisfied_recount values)
  have conflicts : Tally.isConflict ∘ Tally.recount values = Clause.isFalse values :=
    funext (Tally.isConflict_recount values)
  simp [recount, ofTable, List.countP_map, satisfied, conflicts]

section Sweeps
variable {f : Formula} (valid : f.Valid) (tally : Clause → Tally) (l : Literal) (truth : Bool)

include valid in
-- A sweep over the list of a literal reaches every clause as often as the literal stands in it.
theorem foldlM_positions (step : Tallies → Nat → Except Fault Tallies) (change : Nat → Tally → Tally)
    (able : Nat → Tally → Prop) (none : ∀ t, change 0 t = t)
    (one : ∀ k t, change (k + 1) t = change k (change 1 t))
    (steps : ∀ (table : Array Tally) i t k, table.size < word64 → table[i]? = some t → able (k + 1) t →
      step (ofTable table) i = .ok (ofTable (table.setIfInBounds i (change 1 t))) ∧ able k (change 1 t))
    (ready : ∀ c ∈ f.clauses, able (c.literals.count l) (tally c)) :
    (f.positions l).toArray.foldlM step (ofTable (f.clauses.map tally).toArray) =
      .ok (ofTable (f.clauses.map fun c => change (c.literals.count l) (tally c)).toArray) := by
  have inside : ∀ i ∈ f.positions l, i < (f.clauses.map tally).toArray.size := by
    intro i member
    simpa using Formula.lt_of_mem_positions member
  have prepared : ∀ i t, (f.clauses.map tally).toArray[i]? = some t →
      able ((f.positions l).count i) t := by
    intro i t listed
    rw [List.getElem?_toArray, List.getElem?_map, Option.map_eq_some_iff] at listed
    obtain ⟨c, found, rfl⟩ := listed
    rw [Formula.count_positions, found]
    exact ready c (List.mem_of_getElem? found)
  rw [List.foldlM_toArray, foldlM_ofTable step change _ none one steps (by simpa using valid.few)
    inside prepared]
  refine congrArg (fun table => Except.ok (ofTable table)) (Array.ext_getElem? fun i => ?_)
  simp only [Array.getElem?_mapIdx, List.getElem?_toArray, List.getElem?_map, Formula.count_positions]
  cases f.clauses[i]? <;> simp

include valid in
theorem gain_positions
    (room : ∀ c ∈ f.clauses, (tally c).trues + (tally c).falses + c.literals.count l ≤ (tally c).size ∧
      (tally c).size < word32) :
    (f.positions l).toArray.foldlM (gain truth) (ofTable (f.clauses.map tally).toArray) =
      .ok (ofTable (f.clauses.map fun c => (tally c).raise truth (c.literals.count l)).toArray) := by
  refine foldlM_positions valid tally l (gain truth) (Tally.raise truth)
    (fun k t => t.trues + t.falses + k ≤ t.size ∧ t.size < word32)
    (Tally.raise_zero truth) (Tally.raise_succ truth) ?_ room
  rintro table i t k few found ⟨room, small⟩
  refine ⟨gain_ofTable found truth few (by omega) small, ?_⟩
  cases truth
  · simp only [Tally.raise, Bool.false_eq_true, if_false]; omega
  · simp only [Tally.raise, if_true]; omega

include valid in
theorem lose_positions
    (room : ∀ c ∈ f.clauses, c.literals.count l ≤ (tally c).number truth ∧
      (tally c).trues + (tally c).falses ≤ (tally c).size) :
    (f.positions l).toArray.foldlM (lose truth) (ofTable (f.clauses.map tally).toArray) =
      .ok (ofTable (f.clauses.map fun c => (tally c).lower truth (c.literals.count l)).toArray) := by
  refine foldlM_positions valid tally l (lose truth) (Tally.lower truth)
    (fun k t => k ≤ t.number truth ∧ t.trues + t.falses ≤ t.size)
    (Tally.lower_zero truth) (Tally.lower_succ truth) ?_ room
  rintro table i t k few found ⟨present, room⟩
  refine ⟨lose_ofTable found truth (by omega) room, ?_⟩
  cases truth
  · simp only [Tally.number, Tally.lower, Bool.false_eq_true, if_false] at present ⊢; omega
  · simp only [Tally.number, Tally.lower, if_true] at present ⊢; omega

include valid in
theorem turn_positions
    (room : ∀ c ∈ f.clauses, c.literals.count l ≤ (tally c).number truth ∧
      (tally c).trues + (tally c).falses ≤ (tally c).size ∧ (tally c).size < word32) :
    (f.positions l).toArray.foldlM (turn truth) (ofTable (f.clauses.map tally).toArray) =
      .ok (ofTable (f.clauses.map fun c => (tally c).invert truth (c.literals.count l)).toArray) := by
  refine foldlM_positions valid tally l (turn truth) (Tally.invert truth)
    (fun k t => k ≤ t.number truth ∧ t.trues + t.falses ≤ t.size ∧ t.size < word32)
    (Tally.invert_zero truth) (Tally.invert_succ truth) ?_ room
  rintro table i t k few found ⟨present, room, small⟩
  refine ⟨turn_ofTable found truth few (by omega) room small, ?_⟩
  cases truth
  · simp only [Tally.number, Tally.invert, Tally.raise, Tally.lower, Bool.not_false,
      Bool.false_eq_true, if_false, if_true] at present ⊢
    omega
  · simp only [Tally.number, Tally.invert, Tally.raise, Tally.lower, Bool.not_true,
      Bool.false_eq_true, if_false, if_true] at present ⊢
    omega

end Sweeps

end Tallies

namespace Formula

theorem weightUnder_eq (f : Formula) (values : Array (Option Bool)) :
    f.weightUnder values = total (f.vars.map fun var =>
      if values[var]? == some (some true) then f.weights.getD var 0 else 0) :=
  total_map_filter _ _ _

theorem weightUnder_set {f : Formula} {values : Array (Option Bool)} {var : Nat} (first : 0 < var)
    (last : var ≤ f.nVars) (free : values[var]? = some none) (value : Bool) :
    f.weightUnder (values.setIfInBounds var (some value)) =
      f.weightUnder values + if value then f.weights.getD var 0 else 0 := by
  obtain ⟨inside, unset⟩ := Array.getElem?_eq_some_iff.mp free
  have member : var ∈ f.vars := List.mem_range'_1.mpr ⟨first, by omega⟩
  rw [weightUnder_eq, weightUnder_eq]
  refine total_map_update member List.nodup_range' ?_ ?_
  · intro other different
    rw [Array.getElem?_setIfInBounds_ne different.symm]
  · cases value <;> simp [inside, unset]

theorem Valid.weightUnder_le {f : Formula} (valid : f.Valid) (values : Array (Option Bool)) :
    f.weightUnder values ≤ total f.weights.toList := by
  rw [valid.weights_eq, total_cons, Nat.zero_add, ← valid.map_weights, weightUnder_eq]
  apply total_map_le
  intro var _
  split
  · exact Nat.le_refl _
  · exact Nat.zero_le _

end Formula

namespace State
open Occurrences (Tables)

-- The values in which the variable has none are the ground of all changes of it.
variable {f : Formula} {index : Occurrences} {ground : Array (Option Bool)} {var : Nat}

theorem gainWeight_set (valid : f.Valid) (tables : Tables f f.positions index) (first : 0 < var)
    (last : var ≤ f.nVars) (free : ground[var]? = some none) (value : Bool) :
    gainWeight index var value (f.weightUnder ground) =
      .ok (f.weightUnder (ground.setIfInBounds var (some value))) := by
  have limit := valid.weightUnder_le (ground.setIfInBounds var (some value))
  have small := valid.total_lt
  rw [Formula.weightUnder_set first last free] at limit ⊢
  cases value with
  | false => rfl
  | true =>
    simp only [gainWeight, if_true, tables.weight_eq valid last, bind, Except.bind] at limit ⊢
    exact within_eq_ok_iff.mpr ⟨by omega, rfl⟩

theorem loseWeight_set (valid : f.Valid) (tables : Tables f f.positions index) (first : 0 < var)
    (last : var ≤ f.nVars) (free : ground[var]? = some none) (value : Bool) :
    loseWeight index var value (f.weightUnder (ground.setIfInBounds var (some value))) =
      .ok (f.weightUnder ground) := by
  rw [Formula.weightUnder_set first last free]
  cases value with
  | false => rfl
  | true =>
    simp only [loseWeight, if_true, tables.weight_eq valid last, bind, Except.bind]
    exact subtract_eq_ok_iff.mpr ⟨by omega, by omega⟩

theorem turnWeight_set (valid : f.Valid) (tables : Tables f f.positions index) (first : 0 < var)
    (last : var ≤ f.nVars) (free : ground[var]? = some none) (value : Bool) :
    turnWeight index var value (f.weightUnder (ground.setIfInBounds var (some value))) =
      .ok (f.weightUnder (ground.setIfInBounds var (some !value))) := by
  have gained := gainWeight_set valid tables first last free true
  have lost := loseWeight_set valid tables first last free true
  have neutral : f.weightUnder (ground.setIfInBounds var (some false)) = f.weightUnder ground := by
    simp [Formula.weightUnder_set first last free]
  simp only [gainWeight, loseWeight, turnWeight, if_true, tables.weight_eq valid last, bind,
    Except.bind] at gained lost ⊢
  cases value with
  | false => simpa [neutral] using gained
  | true => simpa [neutral] using lost

theorem assign_recount (fit : f.Searchable) (tables : Tables f f.positions index) (first : 0 < var)
    (last : var ≤ f.nVars) (free : ground[var]? = some none) (value : Bool) :
    (recount f ground).assign index var value =
      .ok (recount f (ground.setIfInBounds var (some value))) := by
  have room : ∀ c ∈ f.clauses, (Tally.recount ground c).trues + (Tally.recount ground c).falses +
      c.literals.count ⟨var, false⟩ + c.literals.count ⟨var, true⟩ ≤ (Tally.recount ground c).size ∧
      (Tally.recount ground c).size < word32 := by
    intro c member
    have after := Tally.recount_room (ground.setIfInBounds var (some value)) c
    rw [Tally.recount_set free] at after
    refine ⟨?_, fit.short c member⟩
    cases value <;> simp [Tally.raise] at after <;> omega
  have positive := Tallies.gain_positions fit.toValid (Tally.recount ground) ⟨var, false⟩ value
    fun c member => ⟨by have := room c member; omega, (room c member).2⟩
  have negative := Tallies.gain_positions fit.toValid
    (fun c => (Tally.recount ground c).raise value (c.literals.count ⟨var, false⟩)) ⟨var, true⟩ (!value)
    (by
      intro c member
      have space := room c member
      cases value <;> simp [Tally.raise] <;> omega)
  have read : entry ground var = .ok none := entry_eq_ok_iff.mpr free
  simp only [assign, recount, Tallies.recount_eq_ofTable, read, Option.isSome_none, Bool.false_eq_true,
    if_false, tables.listed ⟨var, false⟩ last, tables.listed ⟨var, true⟩ last, positive, negative,
    gainWeight_set fit.toValid tables first last free, funext (Tally.recount_set free value), bind,
    Except.bind, pure, Except.pure]

theorem recount_set_room (fit : f.Searchable) (free : ground[var]? = some none) (value : Bool)
    {c : Clause} (member : c ∈ f.clauses) :
    c.literals.count ⟨var, false⟩ ≤
        (Tally.recount (ground.setIfInBounds var (some value)) c).number value ∧
      c.literals.count ⟨var, true⟩ ≤
        (Tally.recount (ground.setIfInBounds var (some value)) c).number (!value) ∧
      (Tally.recount (ground.setIfInBounds var (some value)) c).trues +
        (Tally.recount (ground.setIfInBounds var (some value)) c).falses ≤
          (Tally.recount (ground.setIfInBounds var (some value)) c).size ∧
      (Tally.recount (ground.setIfInBounds var (some value)) c).size < word32 := by
  have room := Tally.recount_room (ground.setIfInBounds var (some value)) c
  refine ⟨?_, ?_, room, fit.short c member⟩
  · rw [Tally.recount_set free]
    cases value <;> simp [Tally.number, Tally.raise]
  · rw [Tally.recount_set free]
    cases value <;> simp [Tally.number, Tally.raise]

theorem assigned_eq {s : State} {value : Bool} (found : s.values[var]? = some (some value)) :
    s.assigned var = .ok value := by
  have read : entry s.values var = .ok (some value) := entry_eq_ok_iff.mpr found
  simp only [assigned, read, bind, Except.bind, pure, Except.pure]

theorem set_set_none (free : ground[var]? = some none) (value : Option Bool) :
    (ground.setIfInBounds var value).setIfInBounds var none = ground := by
  obtain ⟨inside, unset⟩ := Array.getElem?_eq_some_iff.mp free
  apply Array.ext_getElem?
  intro i
  by_cases same : var = i
  · subst same
    simp [inside, unset]
  · simp [Array.getElem?_setIfInBounds_ne same]

theorem unassign_recount (fit : f.Searchable) (tables : Tables f f.positions index) (first : 0 < var)
    (last : var ≤ f.nVars) (free : ground[var]? = some none) (value : Bool) :
    (recount f (ground.setIfInBounds var (some value))).unassign index var =
      .ok (recount f ground) := by
  obtain ⟨inside, _⟩ := Array.getElem?_eq_some_iff.mp free
  have read : (recount f (ground.setIfInBounds var (some value))).assigned var = .ok value :=
    assigned_eq (by simp [recount, inside])
  have positive := Tallies.lose_positions fit.toValid
    (Tally.recount (ground.setIfInBounds var (some value))) ⟨var, false⟩ value
    fun c member => ⟨(recount_set_room fit free value member).1,
      (recount_set_room fit free value member).2.2.1⟩
  have negative := Tallies.lose_positions fit.toValid
    (fun c => (Tally.recount (ground.setIfInBounds var (some value)) c).lower value
      (c.literals.count ⟨var, false⟩)) ⟨var, true⟩ (!value)
    (by
      intro c member
      have space := recount_set_room fit free value member
      cases value <;> simp [Tally.lower, Tally.number] at space ⊢ <;> omega)
  have lowered : ∀ c, ((Tally.recount (ground.setIfInBounds var (some value)) c).lower value
      (c.literals.count ⟨var, false⟩)).lower (!value) (c.literals.count ⟨var, true⟩) =
        Tally.recount ground c := by
    intro c
    rw [Tally.recount_set free, Tally.lower_raise_raise]
  rw [unassign, read]
  simp only [recount, Tallies.recount_eq_ofTable, tables.listed ⟨var, false⟩ last,
    tables.listed ⟨var, true⟩ last, positive, negative, loseWeight_set fit.toValid tables first last free,
    set_set_none free, lowered, bind, Except.bind, pure, Except.pure]

theorem flip_recount (fit : f.Searchable) (tables : Tables f f.positions index) (first : 0 < var)
    (last : var ≤ f.nVars) (free : ground[var]? = some none) (value : Bool) :
    (recount f (ground.setIfInBounds var (some value))).flip index var =
      .ok (recount f (ground.setIfInBounds var (some !value))) := by
  obtain ⟨inside, _⟩ := Array.getElem?_eq_some_iff.mp free
  have read : (recount f (ground.setIfInBounds var (some value))).assigned var = .ok value :=
    assigned_eq (by simp [recount, inside])
  have positive := Tallies.turn_positions fit.toValid
    (Tally.recount (ground.setIfInBounds var (some value))) ⟨var, false⟩ value
    fun c member => ⟨(recount_set_room fit free value member).1,
      (recount_set_room fit free value member).2.2⟩
  have negative := Tallies.turn_positions fit.toValid
    (fun c => (Tally.recount (ground.setIfInBounds var (some value)) c).invert value
      (c.literals.count ⟨var, false⟩)) ⟨var, true⟩ (!value)
    (by
      intro c member
      have space := recount_set_room fit free value member
      cases value <;> simp [Tally.invert, Tally.raise, Tally.lower, Tally.number] at space ⊢ <;> omega)
  have inverted : ∀ c, ((Tally.recount (ground.setIfInBounds var (some value)) c).invert value
      (c.literals.count ⟨var, false⟩)).invert (!value) (c.literals.count ⟨var, true⟩) =
        Tally.recount (ground.setIfInBounds var (some !value)) c := by
    intro c
    rw [Tally.recount_set free, Tally.recount_set free, Tally.invert_raise_raise, Bool.not_not]
  rw [flip, read]
  simp only [recount, Tallies.recount_eq_ofTable, tables.listed ⟨var, false⟩ last,
    tables.listed ⟨var, true⟩ last, positive, negative, turnWeight_set fit.toValid tables first last free,
    inverted, Array.setIfInBounds_setIfInBounds, bind, Except.bind, pure, Except.pure]

end State

end WeightedCnf
