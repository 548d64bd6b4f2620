import WeightedCnf.Proofs.Occurrences

namespace WeightedCnf

theorem length_positionsIn (numbered : List (Clause × Nat)) (l : Literal) :
    (positionsIn numbered l).length = total (numbered.map fun n => n.1.literals.count l) := by
  induction numbered with
  | nil => rfl
  | cons n numbered ih =>
    rw [positionsIn] at ih ⊢
    rw [List.flatMap_cons, List.length_append, List.length_replicate, ih, List.map_cons, total_cons]

theorem total_count_vars {ls : List Literal} {nVars : Nat}
    (inside : ∀ l ∈ ls, 0 < l.var ∧ l.var ≤ nVars) :
    total ((List.range' 1 nVars).map fun var => ls.count ⟨var, false⟩ + ls.count ⟨var, true⟩) =
      ls.length := by
  induction ls with
  | nil => exact total_map_zero _
  | cons l ls ih =>
    obtain ⟨⟨first, last⟩, later⟩ := List.forall_mem_cons.mp inside
    have member : l.var ∈ List.range' 1 nVars := List.mem_range'_1.mpr ⟨first, by omega⟩
    rw [List.length_cons, ← ih later]
    obtain ⟨here, negated⟩ := l
    refine total_map_update member List.nodup_range' ?_ ?_
    · intro var other
      simp [other.symm]
    · cases negated <;> simp <;> omega

-- The clauses are counted on the right, the variables on the left.
theorem total_count_clauses {clauses : List Clause} {nVars : Nat}
    (inside : ∀ c ∈ clauses, ∀ l ∈ c.literals, 0 < l.var ∧ l.var ≤ nVars) :
    total ((List.range' 1 nVars).map fun var => total (clauses.map (·.literals.count ⟨var, false⟩)) +
      total (clauses.map (·.literals.count ⟨var, true⟩))) = total (clauses.map Clause.size) := by
  induction clauses with
  | nil => exact total_map_zero _
  | cons c clauses ih =>
    obtain ⟨here, later⟩ := List.forall_mem_cons.mp inside
    rw [List.map_cons, total_cons, ← ih later, Clause.size, ← total_count_vars here, ← total_map_add]
    refine congrArg total (List.map_congr_left fun var _ => ?_)
    simp only [List.map_cons, total_cons]
    omega

namespace Formula

theorem positionsIn_ascending {clauses : List Clause} (once : ∀ c ∈ clauses, c.literals.Nodup)
    (l : Literal) (start : Nat) : (positionsIn (clauses.zipIdx start) l).Pairwise (· < ·) := by
  induction clauses generalizing start with
  | nil => exact .nil
  | cons c clauses ih =>
    obtain ⟨here, later⟩ := List.forall_mem_cons.mp once
    rw [positionsIn_cons, List.pairwise_append]
    refine ⟨?_, ih later (start + 1), ?_⟩
    · exact List.pairwise_replicate.mpr (.inl (List.nodup_iff_count.mp here l))
    · intro i first j rest
      have equal := (List.mem_replicate.mp first).2
      have bound := le_of_mem_positionsIn rest
      omega

theorem length_positions (f : Formula) (l : Literal) :
    (f.positions l).length = total (f.clauses.map (·.literals.count l)) := by
  have numbered : f.clauses.zipIdx.map (fun n => n.1.literals.count l) =
      (f.clauses.zipIdx.map Prod.fst).map (·.literals.count l) := by
    rw [List.map_map]
    rfl
  rw [positions, length_positionsIn, numbered, List.zipIdx_map_fst]

theorem mem_positions {f : Formula} {l : Literal} {i : Nat} :
    i ∈ f.positions l ↔ ∃ c, f.clauses[i]? = some c ∧ l ∈ c.literals := by
  rw [← List.count_pos_iff, count_positions]
  cases f.clauses[i]? <;> simp

theorem Valid.positions_zero {f : Formula} (valid : f.Valid) (negated : Bool) :
    f.positions ⟨0, negated⟩ = [] := by
  apply List.eq_nil_iff_forall_not_mem.mpr
  intro i member
  obtain ⟨c, found, literal⟩ := mem_positions.mp member
  have range := valid.in_range c (List.mem_of_getElem? found) _ literal
  exact Nat.lt_irrefl 0 range.1

end Formula

namespace Occurrences

variable {f : Formula} {index : Occurrences}

theorem Tables.degree_eq (tables : Tables f f.positions index) {var : Nat} (last : var ≤ f.nVars) :
    index.degree var =
      .ok ((f.positions ⟨var, false⟩).length + (f.positions ⟨var, true⟩).length) := by
  simp only [degree, tables.listed ⟨var, false⟩ last, tables.listed ⟨var, true⟩ last, bind, Except.bind,
    pure, Except.pure, List.size_toArray]

theorem Tables.degrees_eq (tables : Tables f f.positions index) (valid : f.Valid) :
    ∃ degrees, f.vars.mapM index.degree = .ok degrees ∧ total degrees = total index.sizes.toList := by
  refine ⟨_, mapM_eq_ok fun var member => tables.degree_eq ?_, ?_⟩
  · have range := List.mem_range'_1.mp member
    omega
  · simp only [f.length_positions, tables.sizes]
    exact total_count_clauses valid.in_range

-- The positions, in ascending order, of exactly those sequences in which a literal stands.
structure Names (sequences : List (List Literal)) (l : Literal) (list : Array Nat) : Prop where
  ascending : list.toList.Pairwise (· < ·)
  exactly : ∀ i, i ∈ list ↔ ∃ ls, sequences[i]? = some ls ∧ l ∈ ls

theorem names_positions {sequences : List (List Literal)}
    (same : f.clauses = sequences.map Clause.ofLiterals) (l : Literal) :
    Names sequences l (f.positions l).toArray := by
  have once : ∀ c ∈ f.clauses, c.literals.Nodup := by
    rw [same]
    intro c member
    obtain ⟨ls, _, rfl⟩ := List.mem_map.mp member
    exact Clause.nodup_ofLiterals ls
  refine ⟨Formula.positionsIn_ascending once l 0, ?_⟩
  intro i
  rw [List.mem_toArray, Formula.mem_positions, same, List.getElem?_map]
  simp only [Option.map_eq_some_iff]
  constructor
  · rintro ⟨_, ⟨ls, found, rfl⟩, literal⟩
    exact ⟨ls, found, Clause.mem_ofLiterals.mp literal⟩
  · rintro ⟨ls, found, literal⟩
    exact ⟨_, ⟨ls, found, rfl⟩, Clause.mem_ofLiterals.mpr literal⟩

theorem Names.both {sequences : List (List Literal)} {l k : Literal} {list other : Array Nat}
    (names : Names sequences l list) (others : Names sequences k other) (i : Nat) :
    i ∈ list ∧ i ∈ other ↔ ∃ ls, sequences[i]? = some ls ∧ l ∈ ls ∧ k ∈ ls := by
  rw [names.exactly, others.exactly]
  constructor
  · rintro ⟨⟨ls, found, first⟩, ⟨ks, again, second⟩⟩
    rw [found, Option.some.injEq] at again
    exact ⟨ls, found, first, again ▸ second⟩
  · rintro ⟨ls, found, first, second⟩
    exact ⟨⟨ls, found, first⟩, ⟨ls, found, second⟩⟩

-- However often a literal is repeated in a clause, the clause is named once. Entry 0 stays empty, and no
-- literal is lost.
theorem lists_name_every_clause_once {nVars : Nat} {weights : List Nat}
    {sequences : List (List Literal)}
    (built : Formula.build nVars weights (sequences.map Clause.ofLiterals) = .ok f) :
    ∃ index, ofFormula f = .ok index ∧
      (∀ var, 0 < var → var ≤ f.nVars → ∃ positive negative,
        index.clauses false var = .ok positive ∧ index.clauses true var = .ok negative ∧
        Names sequences (.positive var) positive ∧ Names sequences (.negative var) negative ∧
        ∀ i, i ∈ positive ∧ i ∈ negative ↔
          ∃ ls, sequences[i]? = some ls ∧ .positive var ∈ ls ∧ .negative var ∈ ls) ∧
      index.clauses false 0 = .ok #[] ∧ index.clauses true 0 = .ok #[] ∧
      index.sizes = (f.clauses.map Clause.size).toArray ∧
      ∃ degrees, f.vars.mapM index.degree = .ok degrees ∧
        total degrees = total index.sizes.toList := by
  have valid := Formula.valid_of_build built
  obtain ⟨_, _, _, parts⟩ := Formula.build_eq_ok_iff.mp built
  have same : f.clauses = sequences.map Clause.ofLiterals := by
    rw [parts]
    rfl
  obtain ⟨index, made, tables⟩ := ofFormula_tables valid
  refine ⟨index, made, ?_, ?_, ?_, tables.sizes, tables.degrees_eq valid⟩
  · intro var _ last
    have positive := names_positions same (.positive var)
    have negative := names_positions same (.negative var)
    exact ⟨_, _, tables.listed ⟨var, false⟩ last, tables.listed ⟨var, true⟩ last, positive, negative,
      positive.both negative⟩
  · rw [← valid.positions_zero false]
    exact tables.listed ⟨0, false⟩ (Nat.zero_le _)
  · rw [← valid.positions_zero true]
    exact tables.listed ⟨0, true⟩ (Nat.zero_le _)

-- A literal is written three times in one clause, a clause is a tautology, one is empty, and variable 3
-- stands nowhere.
theorem lists_name_every_clause_once_repeated :
    let sequences : List (List Literal) := [[.positive 1, .negative 2, .positive 1, .positive 1],
      [.positive 2, .negative 2], [], [.negative 1, .positive 2]]
    let f := Formula.ofParts 3 [1, 0, 2] (sequences.map Clause.ofLiterals)
    Formula.build 3 [1, 0, 2] (sequences.map Clause.ofLiterals) = .ok f ∧
      ofFormula f = .ok ⟨#[#[], #[0], #[1, 3], #[]], #[#[], #[3], #[0, 1], #[]], #[2, 2, 0, 2],
        #[0, 1, 0, 2]⟩ ∧
      ∃ index, ofFormula f = .ok index ∧
        (∀ var, 0 < var → var ≤ f.nVars → ∃ positive negative,
          index.clauses false var = .ok positive ∧ index.clauses true var = .ok negative ∧
          Names sequences (.positive var) positive ∧ Names sequences (.negative var) negative ∧
          ∀ i, i ∈ positive ∧ i ∈ negative ↔
            ∃ ls, sequences[i]? = some ls ∧ .positive var ∈ ls ∧ .negative var ∈ ls) ∧
        index.clauses false 0 = .ok #[] ∧ index.clauses true 0 = .ok #[] ∧
        index.sizes = (f.clauses.map Clause.size).toArray ∧
        ∃ degrees, f.vars.mapM index.degree = .ok degrees ∧
          total degrees = total index.sizes.toList := by
  intro sequences f
  have built : Formula.build 3 [1, 0, 2] (sequences.map Clause.ofLiterals) = .ok f := rfl
  exact ⟨built, rfl, lists_name_every_clause_once built⟩

end Occurrences

end WeightedCnf
