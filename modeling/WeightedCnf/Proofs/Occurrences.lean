import WeightedCnf.Occurrences
import WeightedCnf.Proofs.Formula.Valid

namespace WeightedCnf

def positionsIn (numbered : List (Clause × Nat)) (l : Literal) : List Nat :=
  numbered.flatMap fun (c, i) => List.replicate (c.literals.count l) i

def Formula.positions (f : Formula) (l : Literal) : List Nat := positionsIn f.clauses.zipIdx l

namespace Occurrences

structure Tables (f : Formula) (lists : Literal → List Nat) (index : Occurrences) : Prop where
  positive_size : index.positive.size = f.nVars + 1
  negative_size : index.negative.size = f.nVars + 1
  listed : ∀ l, l.var ≤ f.nVars → index.clauses l.negated l.var = .ok (lists l).toArray
  sizes : index.sizes = (f.clauses.map Clause.size).toArray
  weights : index.weights = f.weights

theorem Tables.congr {f : Formula} {before after : Literal → List Nat} {index : Occurrences}
    (tables : Tables f before index) (same : ∀ l, before l = after l) : Tables f after index := by
  have equal : before = after := funext same
  rwa [equal] at tables

theorem empty_tables (f : Formula) : Tables f (fun _ => []) (empty (f.nVars + 1) f) := by
  refine ⟨by simp [empty], by simp [empty], ?_, rfl, rfl⟩
  intro l inside
  have slot : l.var < f.nVars + 1 := by omega
  rw [clauses, entry_eq_ok_iff]
  split <;> simp [empty, slot]

theorem entry_modify_push {table : Array (Array Nat)} {var : Nat} {list : List Nat}
    (before : entry table var = .ok list.toArray) (here position : Nat) :
    entry (table.modify here (·.push position)) var =
      .ok (if var = here then list ++ [position] else list).toArray := by
  rw [entry_eq_ok_iff] at before ⊢
  by_cases same : var = here
  · subst same
    simp [Array.getElem?_modify, before]
  · have other : ¬ here = var := fun equal => same equal.symm
    simp [Array.getElem?_modify, before, same, other]

theorem add_tables {f : Formula} {lists : Literal → List Nat} {index : Occurrences} {l : Literal}
    (tables : Tables f lists index) (inside : l.var ≤ f.nVars) (position : Nat) :
    ∃ next, add position index l = .ok next ∧
      Tables f (fun k => if k = l then lists k ++ [position] else lists k) next := by
  have positive := tables.positive_size
  have negative := tables.negative_size
  have slot : l.var < f.nVars + 1 := by omega
  rcases l with ⟨here, _ | _⟩
  · refine ⟨{ index with positive := index.positive.modify here (·.push position) }, ?_, ?_⟩
    · simp [add, positive, slot]
    · refine ⟨by simpa using positive, negative, ?_, tables.sizes, tables.weights⟩
      rintro ⟨var, _ | _⟩ range
      · simpa [clauses] using entry_modify_push (tables.listed ⟨var, false⟩ range) here position
      · simpa [clauses] using tables.listed ⟨var, true⟩ range
  · refine ⟨{ index with negative := index.negative.modify here (·.push position) }, ?_, ?_⟩
    · simp [add, negative, slot]
    · refine ⟨positive, by simpa using negative, ?_, tables.sizes, tables.weights⟩
      rintro ⟨var, _ | _⟩ range
      · simpa [clauses] using tables.listed ⟨var, false⟩ range
      · simpa [clauses] using entry_modify_push (tables.listed ⟨var, true⟩ range) here position

theorem addClause_tables {f : Formula} {lists : Literal → List Nat} {index : Occurrences} {c : Clause}
    (tables : Tables f lists index) (inside : ∀ l ∈ c.literals, l.var ≤ f.nVars) (position : Nat) :
    ∃ next, addClause index (c, position) = .ok next ∧
      Tables f (fun k => lists k ++ List.replicate (c.literals.count k) position) next := by
  unfold addClause
  simp only
  generalize c.literals = ls at inside ⊢
  induction ls generalizing lists index with
  | nil => exact ⟨index, rfl, tables.congr (by simp)⟩
  | cons l ls ih =>
    obtain ⟨middle, added, between⟩ := add_tables tables (inside l (by simp)) position
    obtain ⟨next, rest, after⟩ := ih between fun k later => inside k (List.mem_cons_of_mem _ later)
    refine ⟨next, by simpa only [List.foldlM_cons, added, bind, Except.bind] using rest, ?_⟩
    apply after.congr
    intro k
    by_cases same : k = l
    · simp [same, List.replicate_succ]
    · have other : ¬ l = k := fun equal => same equal.symm
      simp [same, other]

theorem foldlM_addClause_tables {f : Formula} {lists : Literal → List Nat} {index : Occurrences}
    {numbered : List (Clause × Nat)} (tables : Tables f lists index)
    (inside : ∀ c ∈ numbered, ∀ l ∈ c.1.literals, l.var ≤ f.nVars) :
    ∃ next, numbered.foldlM addClause index = .ok next ∧
      Tables f (fun k => lists k ++ positionsIn numbered k) next := by
  induction numbered generalizing lists index with
  | nil => exact ⟨index, rfl, tables.congr (by simp [positionsIn])⟩
  | cons c numbered ih =>
    obtain ⟨middle, added, between⟩ := addClause_tables tables (inside c (by simp)) c.2
    obtain ⟨next, rest, after⟩ := ih between fun d later => inside d (List.mem_cons_of_mem _ later)
    refine ⟨next, by simpa only [List.foldlM_cons, added, bind, Except.bind] using rest, ?_⟩
    exact after.congr fun k => by simp [positionsIn]

theorem ofFormula_tables {f : Formula} (valid : f.Valid) :
    ∃ index, ofFormula f = .ok index ∧ Tables f f.positions index := by
  have inside : ∀ c ∈ f.clauses.zipIdx, ∀ l ∈ c.1.literals, l.var ≤ f.nVars := by
    intro c member l literal
    exact (valid.in_range c.1 (List.fst_mem_of_mem_zipIdx member) l literal).2
  obtain ⟨index, made, tables⟩ := foldlM_addClause_tables (empty_tables f) inside
  refine ⟨index, ?_, tables.congr fun l => by simp [Formula.positions]⟩
  have room : requireRoom f = .ok () := by simp [requireRoom, valid.weights_size]
  simpa only [ofFormula, room, bind, Except.bind] using made

def HasSlots (count : Nat) (index : Occurrences) : Prop :=
  index.positive.size = count ∧ index.negative.size = count

theorem add_slots {count : Nat} {index next : Occurrences} {l : Literal} {position : Nat}
    (slots : HasSlots count index) (added : add position index l = .ok next) :
    l.var < count ∧ HasSlots count next := by
  obtain ⟨positive, negative⟩ := slots
  unfold add at added
  split at added
  · split at added
    · cases added
      exact ⟨by omega, positive, by simpa using negative⟩
    · cases added
  · split at added
    · cases added
      exact ⟨by omega, by simpa using positive, negative⟩
    · cases added

theorem addClause_slots {count : Nat} {index next : Occurrences} {numbered : Clause × Nat}
    (slots : HasSlots count index) (added : addClause index numbered = .ok next) :
    (∀ l ∈ numbered.1.literals, l.var < count) ∧ HasSlots count next := by
  refine forall_of_foldlM ?_ slots added
  intro _ _ _
  exact add_slots

-- The tables are filled only if there is an entry for each literal.
theorem in_range_of_ofFormula {f : Formula} {index : Occurrences} (made : ofFormula f = .ok index) :
    ∀ c ∈ f.clauses, ∀ l ∈ c.literals, l.var ≤ f.nVars := by
  obtain ⟨_, _, filled⟩ := bind_eq_ok_iff.mp made
  have start : HasSlots (f.nVars + 1) (empty (f.nVars + 1) f) := by simp [HasSlots, empty]
  have inside : ∀ c ∈ f.clauses.zipIdx, ∀ l ∈ c.1.literals, l.var < f.nVars + 1 := by
    refine (forall_of_foldlM ?_ start filled).1
    intro _ _ _
    exact addClause_slots
  intro c member l literal
  obtain ⟨position, found⟩ := List.mem_iff_getElem?.mp member
  have small := inside (c, position) (List.mem_zipIdx_iff_getElem?.mpr found) l literal
  omega

theorem Tables.nVars_eq {f : Formula} {lists : Literal → List Nat} {index : Occurrences}
    (tables : Tables f lists index) : index.nVars = f.nVars := by
  simp [nVars, tables.positive_size]

theorem Tables.weight_eq {f : Formula} {lists : Literal → List Nat} {index : Occurrences} {var : Nat}
    (tables : Tables f lists index) (valid : f.Valid) (inside : var ≤ f.nVars) :
    index.weight var = .ok (f.weights.getD var 0) := by
  have slot : var < f.weights.size := by have size := valid.weights_size; omega
  simp [weight, tables.weights, entry_eq_ok_iff, Array.getD, slot]

end Occurrences

namespace Formula

theorem positionsIn_cons (c : Clause) (clauses : List Clause) (l : Literal) (start : Nat) :
    positionsIn ((c :: clauses).zipIdx start) l =
      List.replicate (c.literals.count l) start ++ positionsIn (clauses.zipIdx (start + 1)) l := by
  simp [positionsIn]

theorem le_of_mem_positionsIn {clauses : List Clause} {l : Literal} {start i : Nat}
    (member : i ∈ positionsIn (clauses.zipIdx start) l) : start ≤ i := by
  obtain ⟨⟨c, j⟩, numbered, listed⟩ := List.mem_flatMap.mp member
  have bound := List.le_snd_of_mem_zipIdx numbered
  have equal := (List.mem_replicate.mp listed).2
  simp only at bound equal
  omega

theorem count_positionsIn_of_lt (clauses : List Clause) (l : Literal) {start i : Nat}
    (early : i < start) : (positionsIn (clauses.zipIdx start) l).count i = 0 := by
  rw [List.count_eq_zero]
  intro member
  have bound := le_of_mem_positionsIn member
  omega

theorem count_positionsIn (clauses : List Clause) (l : Literal) (start i : Nat) :
    (positionsIn (clauses.zipIdx start) l).count (start + i) =
      (clauses[i]?.map (·.literals.count l)).getD 0 := by
  induction clauses generalizing start i with
  | nil => simp [positionsIn]
  | cons c clauses ih =>
    rw [positionsIn_cons, List.count_append, List.count_replicate]
    cases i with
    | zero =>
      have absent := count_positionsIn_of_lt clauses l (Nat.lt_succ_self start)
      simp [absent]
    | succ i =>
      have rest := ih (start + 1) i
      rw [Nat.add_right_comm, Nat.add_assoc] at rest
      simp [rest]

-- A clause stands in the list of a literal as often as the literal stands in the clause.
theorem count_positions (f : Formula) (l : Literal) (i : Nat) :
    (f.positions l).count i = (f.clauses[i]?.map (·.literals.count l)).getD 0 := by
  simpa [positions] using count_positionsIn f.clauses l 0 i

theorem lt_of_mem_positions {f : Formula} {l : Literal} {i : Nat} (member : i ∈ f.positions l) :
    i < f.clauses.length := by
  have found := List.count_pos_iff.mpr member
  rw [count_positions] at found
  by_cases inside : i < f.clauses.length
  · exact inside
  · rw [List.getElem?_eq_none (by omega)] at found
    simp at found

end Formula

end WeightedCnf
