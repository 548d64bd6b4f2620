import WeightedCnf.State

namespace WeightedCnf

namespace Tally

def number (truth : Bool) (t : Tally) : Nat := if truth then t.trues else t.falses

def raise (truth : Bool) (count : Nat) (t : Tally) : Tally :=
  if truth then { t with trues := t.trues + count } else { t with falses := t.falses + count }

def lower (truth : Bool) (count : Nat) (t : Tally) : Tally :=
  if truth then { t with trues := t.trues - count } else { t with falses := t.falses - count }

def invert (truth : Bool) (count : Nat) (t : Tally) : Tally := (t.lower truth count).raise (!truth) count

theorem raise_zero (truth : Bool) (t : Tally) : t.raise truth 0 = t := by
  cases truth <;> rfl

theorem lower_zero (truth : Bool) (t : Tally) : t.lower truth 0 = t := by
  cases truth <;> rfl

theorem invert_zero (truth : Bool) (t : Tally) : t.invert truth 0 = t := by
  rw [invert, lower_zero, raise_zero]

theorem raise_succ (truth : Bool) (count : Nat) (t : Tally) :
    t.raise truth (count + 1) = (t.raise truth 1).raise truth count := by
  cases truth
  · simp only [raise, Bool.false_eq_true, if_false, mk.injEq, true_and, and_true]; omega
  · simp only [raise, if_true, mk.injEq, and_true]; omega

theorem lower_succ (truth : Bool) (count : Nat) (t : Tally) :
    t.lower truth (count + 1) = (t.lower truth 1).lower truth count := by
  cases truth
  · simp only [lower, Bool.false_eq_true, if_false, mk.injEq, true_and, and_true]; omega
  · simp only [lower, if_true, mk.injEq, and_true]; omega

theorem invert_succ (truth : Bool) (count : Nat) (t : Tally) :
    t.invert truth (count + 1) = (t.invert truth 1).invert truth count := by
  cases truth <;> simp only [invert, raise, lower, Bool.not_true, Bool.not_false, Bool.false_eq_true,
    if_false, if_true, mk.injEq, and_true] <;> omega

end Tally

theorem countP_setIfInBounds {xs : Array α} {i : Nat} {a : α} (found : xs[i]? = some a) (b : α)
    (p : α → Bool) :
    (xs.setIfInBounds i b).countP p + (if p a then 1 else 0) =
      xs.countP p + (if p b then 1 else 0) := by
  obtain ⟨inside, equal⟩ := Array.getElem?_eq_some_iff.mp found
  have counted : (if p a then 1 else 0) ≤ xs.countP p := by
    split
    · rename_i holds
      exact Array.countP_pos_iff.mpr ⟨a, Array.mem_of_getElem? found, holds⟩
    · omega
  simp only [Array.setIfInBounds, inside, dite_true, Array.countP_set, equal]
  omega

namespace Tallies

def ofTable (table : Array Tally) : Tallies :=
  ⟨table, table.countP Tally.isSatisfied, table.countP Tally.isConflict⟩

section Entry
variable {table : Array Tally} {i : Nat} {before : Tally}

theorem add64_countP (found : table[i]? = some before) (after : Tally) {p : Tally → Bool}
    (few : table.size < word64) (fresh : p before = false) (reached : p after = true) :
    add64 (table.countP p) 1 = .ok ((table.setIfInBounds i after).countP p) := by
  have changed := countP_setIfInBounds found after p
  have limit : (table.setIfInBounds i after).countP p ≤ (table.setIfInBounds i after).size :=
    Array.countP_le_size
  simp only [fresh, reached, if_true, Bool.false_eq_true, if_false] at changed
  rw [Array.size_setIfInBounds] at limit
  rw [add64, within_eq_ok_iff]
  omega

theorem subtract_countP (found : table[i]? = some before) (after : Tally) {p : Tally → Bool}
    (held : p before = true) (lost : p after = false) :
    subtract (table.countP p) 1 = .ok ((table.setIfInBounds i after).countP p) := by
  have changed := countP_setIfInBounds found after p
  simp only [held, lost, if_true, Bool.false_eq_true, if_false] at changed
  rw [subtract_eq_ok_iff]
  omega

theorem countP_unchanged (found : table[i]? = some before) (after : Tally) {p : Tally → Bool}
    (same : p before = p after) : table.countP p = (table.setIfInBounds i after).countP p := by
  have changed := countP_setIfInBounds found after p
  rw [same] at changed
  omega

theorem gain_ofTable (found : table[i]? = some before) (truth : Bool) (few : table.size < word64)
    (room : before.trues + before.falses < before.size) (small : before.size < word32) :
    gain truth (ofTable table) i = .ok (ofTable (table.setIfInBounds i (before.raise truth 1))) := by
  have read : entry table i = .ok before := entry_eq_ok_iff.mpr found
  cases truth with
  | true =>
    have counted : add32 before.trues 1 = .ok (before.trues + 1) :=
      within_eq_ok_iff.mpr ⟨by omega, rfl⟩
    have conflicts : table.countP Tally.isConflict =
        (table.setIfInBounds i (before.raise true 1)).countP Tally.isConflict :=
      countP_unchanged found _ rfl
    have satisfied : (if before.trues + 1 = 1 then add64 (table.countP Tally.isSatisfied) 1
        else .ok (table.countP Tally.isSatisfied)) =
          .ok ((table.setIfInBounds i (before.raise true 1)).countP Tally.isSatisfied) := by
      split
      · rename_i first
        exact add64_countP found _ few (by simp [Tally.isSatisfied]; omega)
          (by simp [Tally.isSatisfied, Tally.raise])
      · rename_i later
        refine congrArg Except.ok (countP_unchanged found _ ?_)
        simp [Tally.isSatisfied, Tally.raise]; omega
    simp only [gain, ofTable, read, counted, satisfied, bind, Except.bind, if_true, pure, Except.pure,
      conflicts]
    rfl
  | false =>
    have counted : add32 before.falses 1 = .ok (before.falses + 1) :=
      within_eq_ok_iff.mpr ⟨by omega, rfl⟩
    have satisfied : table.countP Tally.isSatisfied =
        (table.setIfInBounds i (before.raise false 1)).countP Tally.isSatisfied :=
      countP_unchanged found _ rfl
    have conflicts : (if before.falses + 1 = before.size then add64 (table.countP Tally.isConflict) 1
        else .ok (table.countP Tally.isConflict)) =
          .ok ((table.setIfInBounds i (before.raise false 1)).countP Tally.isConflict) := by
      split
      · rename_i last
        exact add64_countP found _ few (by simp [Tally.isConflict]; omega)
          (by simp [Tally.isConflict, Tally.raise, last])
      · rename_i unfilled
        have earlier : before.isConflict = false := beq_eq_false_iff_ne.mpr (by omega)
        have later : (before.raise false 1).isConflict = false := beq_eq_false_iff_ne.mpr unfilled
        exact congrArg Except.ok (countP_unchanged found _ (earlier.trans later.symm))
    simp only [gain, ofTable, read, counted, conflicts, bind, Except.bind, Bool.false_eq_true, if_false,
      pure, Except.pure, satisfied]
    rfl

theorem lose_ofTable (found : table[i]? = some before) (truth : Bool)
    (present : 0 < before.number truth) (room : before.trues + before.falses ≤ before.size) :
    lose truth (ofTable table) i = .ok (ofTable (table.setIfInBounds i (before.lower truth 1))) := by
  have read : entry table i = .ok before := entry_eq_ok_iff.mpr found
  cases truth with
  | true =>
    simp only [Tally.number, if_true] at present
    have counted : subtract before.trues 1 = .ok (before.trues - 1) :=
      subtract_eq_ok_iff.mpr ⟨present, rfl⟩
    have conflicts : table.countP Tally.isConflict =
        (table.setIfInBounds i (before.lower true 1)).countP Tally.isConflict :=
      countP_unchanged found _ rfl
    have satisfied : (if before.trues - 1 = 0 then subtract (table.countP Tally.isSatisfied) 1
        else .ok (table.countP Tally.isSatisfied)) =
          .ok ((table.setIfInBounds i (before.lower true 1)).countP Tally.isSatisfied) := by
      split
      · rename_i last
        exact subtract_countP found _ (by simp [Tally.isSatisfied, present])
          (by simp [Tally.isSatisfied, Tally.lower, last])
      · rename_i more
        refine congrArg Except.ok (countP_unchanged found _ ?_)
        simp [Tally.isSatisfied, Tally.lower]; omega
    simp only [lose, ofTable, read, counted, satisfied, bind, Except.bind, if_true, pure, Except.pure,
      conflicts]
    rfl
  | false =>
    simp only [Tally.number, Bool.false_eq_true, if_false] at present
    have counted : subtract before.falses 1 = .ok (before.falses - 1) :=
      subtract_eq_ok_iff.mpr ⟨present, rfl⟩
    have satisfied : table.countP Tally.isSatisfied =
        (table.setIfInBounds i (before.lower false 1)).countP Tally.isSatisfied :=
      countP_unchanged found _ rfl
    have later : (before.lower false 1).isConflict = false :=
      beq_eq_false_iff_ne.mpr (by simp only [Tally.lower, Bool.false_eq_true, if_false]; omega)
    have conflicts : (if before.falses = before.size then subtract (table.countP Tally.isConflict) 1
        else .ok (table.countP Tally.isConflict)) =
          .ok ((table.setIfInBounds i (before.lower false 1)).countP Tally.isConflict) := by
      split
      · rename_i full
        exact subtract_countP found _ (beq_iff_eq.mpr full) later
      · rename_i unfilled
        have earlier : before.isConflict = false := beq_eq_false_iff_ne.mpr unfilled
        exact congrArg Except.ok (countP_unchanged found _ (earlier.trans later.symm))
    simp only [lose, ofTable, read, counted, conflicts, bind, Except.bind, Bool.false_eq_true, if_false,
      pure, Except.pure, satisfied]
    rfl

-- Between its two halves a turn leaves a clause with a literal that has no value.
theorem turn_ofTable (found : table[i]? = some before) (truth : Bool) (few : table.size < word64)
    (present : 0 < before.number truth) (room : before.trues + before.falses ≤ before.size)
    (small : before.size < word32) :
    turn truth (ofTable table) i = .ok (ofTable (table.setIfInBounds i (before.invert truth 1))) := by
  have lost := lose_ofTable found truth present room
  obtain ⟨inside, _⟩ := Array.getElem?_eq_some_iff.mp found
  have between : (table.setIfInBounds i (before.lower truth 1))[i]? = some (before.lower truth 1) := by
    simp [inside]
  have space : (before.lower truth 1).trues + (before.lower truth 1).falses <
      (before.lower truth 1).size := by
    cases truth
    · simp only [Tally.number, Tally.lower, Bool.false_eq_true, if_false] at present ⊢; omega
    · simp only [Tally.number, Tally.lower, if_true] at present ⊢; omega
  have narrow : (before.lower truth 1).size < word32 := by cases truth <;> exact small
  have gained := gain_ofTable between (!truth) (by simpa using few) space narrow
  rw [turn, lost]
  simpa [Tally.invert, bind, Except.bind] using gained

end Entry

-- One sweep over a list of positions. `able k t` says that a clause with tally `t` can still be
-- changed `k` times; the induction spends one of these at each position.
theorem foldlM_ofTable (step : Tallies → Nat → Except Fault Tallies) (change : Nat → Tally → Tally)
    (able : Nat → Tally → Prop) {positions : List Nat} {table : Array Tally}
    (none : ∀ t, change 0 t = t) (one : ∀ k t, change (k + 1) t = change k (change 1 t))
    (steps : ∀ (table : Array Tally) i t k, table.size < word64 → table[i]? = some t → able (k + 1) t →
      step (ofTable table) i = .ok (ofTable (table.setIfInBounds i (change 1 t))) ∧ able k (change 1 t))
    (few : table.size < word64) (inside : ∀ i ∈ positions, i < table.size)
    (ready : ∀ i t, table[i]? = some t → able (positions.count i) t) :
    positions.foldlM step (ofTable table) =
      .ok (ofTable (table.mapIdx fun i t => change (positions.count i) t)) := by
  induction positions generalizing table with
  | nil =>
    have same : (table.mapIdx fun i t => change (List.count i []) t) = table := by
      apply Array.ext_getElem?
      simp [none]
    rw [same]
    rfl
  | cons i positions ih =>
    have bound : i < table.size := inside i (by simp)
    have found : table[i]? = some table[i] := Array.getElem?_eq_getElem bound
    have first := ready i table[i] found
    rw [List.count_cons_self] at first
    obtain ⟨stepped, left⟩ := steps table i table[i] _ few found first
    have insideRest : ∀ j ∈ positions, j < (table.setIfInBounds i (change 1 table[i])).size := by
      intro j later
      simpa using inside j (List.mem_cons_of_mem _ later)
    have readyRest : ∀ j t, (table.setIfInBounds i (change 1 table[i]))[j]? = some t →
        able (positions.count j) t := by
      intro j t listed
      by_cases same : i = j
      · subst same
        simp only [Array.getElem?_setIfInBounds_self, bound, if_true, Option.some.injEq] at listed
        exact listed ▸ left
      · rw [Array.getElem?_setIfInBounds_ne same] at listed
        have kept := ready j t listed
        rwa [List.count_cons_of_ne same] at kept
    rw [List.foldlM_cons, stepped]
    simp only [bind, Except.bind, ih (by simpa using few) insideRest readyRest, Except.ok.injEq]
    refine congrArg ofTable (Array.ext_getElem? fun j => ?_)
    simp only [Array.getElem?_mapIdx]
    by_cases same : i = j
    · subst same
      simp [bound, ← one]
    · rw [Array.getElem?_setIfInBounds_ne same, List.count_cons_of_ne same]

end Tallies

end WeightedCnf
