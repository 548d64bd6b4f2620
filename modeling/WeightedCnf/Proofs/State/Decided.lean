import WeightedCnf.BranchBound.Walk
import WeightedCnf.Proofs.State.Recount

namespace WeightedCnf

namespace BranchBound

theorem size_valuesOf {nVars : Nat} {decided : List Bool} (fits : decided.length ≤ nVars) :
    (valuesOf nVars decided).size = nVars + 1 := by
  simp only [valuesOf, List.size_toArray, List.length_cons, List.length_append, List.length_map,
    List.length_replicate]
  omega

theorem valuesOf_nil (nVars : Nat) : valuesOf nVars [] = Array.replicate (nVars + 1) none := by
  simp [valuesOf, Array.replicate_succ']

theorem getElem?_valuesOf_decided {nVars i : Nat} {decided : List Bool} (inside : i < decided.length) :
    (valuesOf nVars decided)[i + 1]? = some decided[i]? := by
  have mapped : i < (decided.map some).length := by simpa using inside
  simp [valuesOf, List.getElem?_append_left mapped, inside]

theorem getElem?_valuesOf_open {nVars i : Nat} {decided : List Bool} (later : decided.length ≤ i)
    (inside : i < nVars) : (valuesOf nVars decided)[i + 1]? = some none := by
  have rest : i - decided.length < nVars - decided.length := by omega
  simp [valuesOf, later, List.getElem?_append_right, rest]

theorem valuesOf_next_free {nVars : Nat} {decided : List Bool} (more : decided.length < nVars) :
    (valuesOf nVars decided)[decided.length + 1]? = some none :=
  getElem?_valuesOf_open (Nat.le_refl _) more

theorem valuesOf_set_next {nVars : Nat} {decided : List Bool} (more : decided.length < nVars)
    (value : Bool) :
    (valuesOf nVars decided).setIfInBounds (decided.length + 1) (some value) =
      valuesOf nVars (decided ++ [value]) := by
  obtain ⟨left, equal⟩ : ∃ left, nVars - decided.length = left + 1 :=
    ⟨nVars - decided.length - 1, by omega⟩
  have fewer : nVars - (decided.length + 1) = left := by omega
  simp [valuesOf, equal, fewer, List.replicate_succ]

theorem valuesOf_extends {nVars : Nat} {decided : List Bool} (fits : decided.length ≤ nVars)
    (more : List Bool) : Extends (valuesOf nVars decided) (valuesOf nVars (decided ++ more)) := by
  intro var value known
  cases var with
  | zero => simp [valuesOf] at known
  | succ i =>
    by_cases inside : i < decided.length
    · rw [getElem?_valuesOf_decided inside, Option.some.injEq] at known
      have longer : i < (decided ++ more).length := by simp; omega
      rw [getElem?_valuesOf_decided longer, List.getElem?_append_left inside, known]
    · by_cases last : i < nVars
      · rw [getElem?_valuesOf_open (by omega) last] at known
        cases known
      · rw [Array.getElem?_eq_none (by rw [size_valuesOf fits]; omega)] at known
        cases known

theorem weightUnder_append_singleton {f : Formula} {decided : List Bool}
    (more : decided.length < f.nVars) (value : Bool) :
    f.weightUnder (valuesOf f.nVars (decided ++ [value])) =
      f.weightUnder (valuesOf f.nVars decided) +
        if value then f.weights.getD (decided.length + 1) 0 else 0 := by
  rw [← valuesOf_set_next more]
  exact Formula.weightUnder_set (Nat.succ_pos _) more (valuesOf_next_free more) value

def openWeight (f : Formula) (depth : Nat) : Nat := total (f.weights.toList.drop (depth + 1))

theorem openWeight_step {f : Formula} {depth : Nat} (valid : f.Valid) (more : depth < f.nVars) :
    openWeight f depth = f.weights.getD (depth + 1) 0 + openWeight f (depth + 1) := by
  have slot : depth + 1 < f.weights.toList.length := by
    have size := valid.weights_size
    simp only [Array.length_toList]
    omega
  rw [openWeight, List.drop_eq_getElem_cons slot, total_cons]
  simp only [Array.length_toList] at slot
  simp [openWeight, Array.getD, slot]

theorem openWeight_zero {f : Formula} (valid : f.Valid) :
    openWeight f 0 = total f.weights.toList := by
  rw [openWeight, valid.weights_eq]
  simp [total]

end BranchBound

namespace State
open BranchBound Occurrences

variable {f : Formula} {index : Occurrences} {decided : List Bool}

theorem truth?_nothing (nVars : Nat) (l : Literal) : l.truth? (valuesOf nVars []) = none := by
  by_cases inside : l.var < nVars + 1
  · exact Literal.truth?_of_none (by simp [valuesOf_nil, inside])
  · simp [Literal.truth?, valuesOf_nil, inside]

theorem recount_nothing (fit : f.Searchable) {c : Clause} (member : c ∈ f.clauses) :
    Tally.recount (valuesOf f.nVars []) c = Tally.fresh c.size := by
  have short := Nat.mod_eq_of_lt (fit.short c member)
  simp [Tally.recount, Tally.fresh, truth?_nothing, short]

theorem weightUnder_nothing (f : Formula) : f.weightUnder (valuesOf f.nVars []) = 0 := by
  have none : (f.vars.filter fun var => (valuesOf f.nVars [])[var]? == some (some true)) = [] := by
    rw [List.filter_eq_nil_iff]
    intro var _
    simp [valuesOf_nil, Array.getElem?_replicate]
  simp [Formula.weightUnder, none, total]

theorem fresh_eq_recount (fit : f.Searchable) (tables : Tables f f.positions index) :
    fresh index = recount f (valuesOf f.nVars []) := by
  have tallies : index.sizes.map Tally.fresh =
      (f.clauses.map (Tally.recount (valuesOf f.nVars []))).toArray := by
    rw [tables.sizes, List.map_congr_left fun c member => recount_nothing fit member]
    simp
  have satisfied : (index.sizes.map Tally.fresh).countP Tally.isSatisfied = 0 := by
    rw [Array.countP_eq_zero]
    intro t listed
    obtain ⟨size, _, rfl⟩ := Array.mem_map.mp listed
    simp [Tally.fresh, Tally.isSatisfied]
  rw [fresh, recount, weightUnder_nothing, tables.nVars_eq, ← valuesOf_nil, Tallies.fresh,
    Tallies.recount_eq_ofTable, Tallies.ofTable, ← tallies, satisfied]

theorem assign_next (fit : f.Searchable) (tables : Tables f f.positions index)
    (more : decided.length < f.nVars) (value : Bool) :
    (recount f (valuesOf f.nVars decided)).assign index (decided.length + 1) value =
      .ok (recount f (valuesOf f.nVars (decided ++ [value]))) := by
  rw [← valuesOf_set_next more]
  exact assign_recount fit tables (Nat.succ_pos _) more (valuesOf_next_free more) value

theorem unassign_next (fit : f.Searchable) (tables : Tables f f.positions index)
    (more : decided.length < f.nVars) (value : Bool) :
    (recount f (valuesOf f.nVars (decided ++ [value]))).unassign index (decided.length + 1) =
      .ok (recount f (valuesOf f.nVars decided)) := by
  rw [← valuesOf_set_next more]
  exact unassign_recount fit tables (Nat.succ_pos _) more (valuesOf_next_free more) value

-- The values are assigned from the first on; the ones before stay decided.
theorem foldlM_assign_next (fit : f.Searchable) (tables : Tables f f.positions index)
    {values : List Bool} (fits : decided.length + values.length ≤ f.nVars) :
    (values.zipIdx (decided.length + 1)).foldlM (fun s (value, var) => s.assign index var value)
        (recount f (valuesOf f.nVars decided)) =
      .ok (recount f (valuesOf f.nVars (decided ++ values))) := by
  induction values generalizing decided with
  | nil => simp [pure, Except.pure]
  | cons value values ih =>
    simp only [List.length_cons] at fits
    have rest := @ih (decided ++ [value]) (by simp; omega)
    simp only [List.length_append, List.length_cons, List.length_nil, Nat.zero_add,
      List.append_assoc, List.cons_append, List.nil_append] at rest
    rw [List.zipIdx_cons, List.foldlM_cons]
    simp only [assign_next fit tables (show decided.length < f.nVars by omega), bind, Except.bind]
    exact rest

theorem ofValues_eq_recount (fit : f.Searchable) (tables : Tables f f.positions index)
    {values : List Bool} (complete : values.length = f.nVars) :
    ofValues index values = .ok (recount f (valuesOf f.nVars values)) := by
  have all := @foldlM_assign_next f index [] fit tables values (by simp [complete])
  simp only [List.length_nil, Nat.zero_add, List.nil_append] at all
  rw [ofValues, tables.nVars_eq, fresh_eq_recount fit tables]
  simp [complete, all]

theorem hasConflict_recount (f : Formula) (values : Array (Option Bool)) :
    (recount f values).hasConflict = f.clauses.any (Clause.isFalse values) := by
  rw [Bool.eq_iff_iff, hasConflict, decide_eq_true_iff, List.any_eq_true]
  exact List.countP_pos_iff

theorem isSatisfied_recount (f : Formula) (values : Array (Option Bool)) :
    (recount f values).isSatisfied = f.clauses.all (Clause.isTrue values) := by
  rw [Bool.eq_iff_iff, isSatisfied, beq_iff_eq, List.all_eq_true, recount, Tallies.recount,
    List.size_toArray, List.length_map]
  exact List.countP_eq_length

theorem toAssignment_recount (f : Formula) (nVars : Nat) (decided : List Bool) :
    (recount f (valuesOf nVars decided)).toAssignment = completion nVars decided := by
  simp [toAssignment, recount, valuesOf, completion, Function.comp_def]

end State

end WeightedCnf
