import WeightedCnf.Formula.Basic
import WeightedCnf.Proofs.Basic
import WeightedCnf.Proofs.Total

namespace WeightedCnf

namespace Formula

-- The 64 bit checks refuse nothing that the limit itself would let pass.
theorem scoreBound_eq_some_iff {weights : List Nat} {numClauses bound : Nat} :
    scoreBound weights numClauses = some bound ↔
      (total weights + 1) * (numClauses + 1) ≤ maxScore ∧
        bound = (total weights + 1) * (numClauses + 1) := by
  have roomy : maxScore < word64 := by decide
  simp only [scoreBound, Option.bind_eq_bind, Option.bind_eq_some_iff, toOption_eq_some_iff,
    sum64_eq_ok_iff, add64, mul64, within_eq_ok_iff]
  constructor
  · rintro ⟨_, ⟨_, rfl⟩, _, ⟨_, rfl⟩, _, ⟨_, rfl⟩, _, ⟨_, rfl⟩, limited⟩
    split at limited
    · rename_i small
      cases Option.some.inj limited
      exact ⟨small, rfl⟩
    · cases limited
  · rintro ⟨small, rfl⟩
    have left : total weights + 1 ≤ (total weights + 1) * (numClauses + 1) :=
      Nat.le_mul_of_pos_right _ (Nat.succ_pos _)
    have right : numClauses + 1 ≤ (total weights + 1) * (numClauses + 1) :=
      Nat.le_mul_of_pos_left _ (Nat.succ_pos _)
    refine ⟨_, ⟨by omega, rfl⟩, _, ⟨by omega, rfl⟩, _, ⟨by omega, rfl⟩, _, ⟨by omega, rfl⟩, ?_⟩
    exact if_pos small

theorem scoreBound_isNone_iff {weights : List Nat} {numClauses : Nat} :
    (scoreBound weights numClauses).isNone ↔
      ¬ (total weights + 1) * (numClauses + 1) ≤ maxScore := by
  rw [Option.isNone_iff_eq_none, Option.eq_none_iff_forall_ne_some]
  constructor
  · intro refused small
    exact refused _ (scoreBound_eq_some_iff.mpr ⟨small, rfl⟩)
  · intro large bound found
    exact large (scoreBound_eq_some_iff.mp found).1

theorem scoreBound_isSome_iff {weights : List Nat} {numClauses : Nat} :
    (scoreBound weights numClauses).isSome ↔ (total weights + 1) * (numClauses + 1) ≤ maxScore := by
  rw [← Option.not_isNone, Bool.not_eq_true', ← Bool.not_eq_true, scoreBound_isNone_iff,
    Decidable.not_not]

theorem inRange_iff {nVars : Nat} {l : Literal} :
    l.inRange nVars = true ↔ 0 < l.var ∧ l.var ≤ nVars := by
  simp [Literal.inRange]

theorem strayLiteral?_eq_none_iff {nVars : Nat} {clauses : List Clause} :
    strayLiteral? nVars clauses = none ↔
      ∀ c ∈ clauses, ∀ l ∈ c.literals, 0 < l.var ∧ l.var ≤ nVars := by
  simp only [strayLiteral?, List.findSome?_eq_none_iff, Option.map_eq_none_iff, List.find?_eq_none,
    Bool.not_eq_true', Bool.not_eq_false, inRange_iff]
  constructor
  · intro none c member l inside
    obtain ⟨position, found⟩ := List.mem_iff_getElem?.mp member
    exact none (c, position) (List.mem_zipIdx_iff_getElem?.mpr found) l inside
  · rintro all ⟨c, position⟩ numbered l inside
    exact all c (List.fst_mem_of_mem_zipIdx numbered) l inside

structure Valid (f : Formula) : Prop where
  weights_size : f.weights.size = f.nVars + 1
  weight_zero : f.weights[0]? = some 0
  in_range : ∀ c ∈ f.clauses, ∀ l ∈ c.literals, 0 < l.var ∧ l.var ≤ f.nVars
  bounded : (total f.weights.toList + 1) * (f.clauses.length + 1) ≤ maxScore

-- A valid formula whose clauses are short enough for tallies in 32 bit words.
structure Searchable (f : Formula) : Prop extends Valid f where
  short : ∀ c ∈ f.clauses, c.size < word32

theorem build_eq_ok_iff {nVars : Nat} {weights : List Nat} {clauses : List Clause} {f : Formula} :
    build nVars weights clauses = .ok f ↔
      weights.length = nVars ∧ (∀ c ∈ clauses, ∀ l ∈ c.literals, 0 < l.var ∧ l.var ≤ nVars) ∧
        (total weights + 1) * (clauses.length + 1) ≤ maxScore ∧ f = ofParts nVars weights clauses := by
  unfold build
  split
  · rename_i arity
    simp [arity]
  · rename_i arity
    split
    · rename_i position l stray
      have outside : ¬ strayLiteral? nVars clauses = none := by simp [stray]
      rw [strayLiteral?_eq_none_iff] at outside
      simp [outside]
    · rename_i inside
      have ranges := strayLiteral?_eq_none_iff.mp inside
      split
      · rename_i large
        have large := scoreBound_isNone_iff.mp large
        simp [large]
      · rename_i small
        rw [scoreBound_isNone_iff, Decidable.not_not] at small
        simp only [Except.ok.injEq, eq_comm, Decidable.not_not.mp arity, small, true_and]
        exact ⟨fun equal => ⟨ranges, equal⟩, fun parts => parts.2⟩

theorem valid_of_build {nVars : Nat} {weights : List Nat} {clauses : List Clause} {f : Formula}
    (built : build nVars weights clauses = .ok f) : f.Valid := by
  obtain ⟨arity, ranges, bound, rfl⟩ := build_eq_ok_iff.mp built
  refine ⟨by simp [ofParts, arity], by simp [ofParts], ranges, ?_⟩
  simpa [ofParts, total_cons] using bound

theorem Valid.weights_eq {f : Formula} (valid : f.Valid) :
    f.weights.toList = 0 :: f.weights.toList.tail := by
  have first := valid.weight_zero
  cases listed : f.weights.toList with
  | nil => simp [← Array.getElem?_toList, listed] at first
  | cons w rest =>
    simp only [← Array.getElem?_toList, listed, List.getElem?_cons_zero, Option.some.injEq] at first
    simp [first]

theorem Valid.map_weights {f : Formula} (valid : f.Valid) :
    f.vars.map (fun var => f.weights.getD var 0) = f.weights.toList.tail := by
  have size := valid.weights_size
  apply List.ext_getElem?
  intro i
  simp only [vars, List.getElem?_map, List.getElem?_tail, Array.getElem?_toList]
  by_cases inside : i < f.nVars
  · have slot : i + 1 < f.weights.size := by omega
    simp [inside, slot, Nat.add_comm 1 i, Array.getD]
  · rw [Array.getElem?_eq_none (by omega)]
    simp [inside]

theorem Valid.few {f : Formula} (valid : f.Valid) : f.clauses.length < word64 := by
  have bound := valid.bounded
  have factor : f.clauses.length + 1 ≤ (total f.weights.toList + 1) * (f.clauses.length + 1) :=
    Nat.le_mul_of_pos_left _ (Nat.succ_pos _)
  have roomy : maxScore < word64 := by decide
  omega

theorem Valid.total_lt {f : Formula} (valid : f.Valid) : total f.weights.toList < word64 := by
  have bound := valid.bounded
  have factor : total f.weights.toList + 1 ≤ (total f.weights.toList + 1) * (f.clauses.length + 1) :=
    Nat.le_mul_of_pos_right _ (Nat.succ_pos _)
  have roomy : maxScore < word64 := by decide
  omega

-- A formula obeys the rules exactly if building it anew from its own parts gives it back.
theorem build_parts_iff {f : Formula} :
    build f.nVars f.weights.toList.tail f.clauses = .ok f ↔ f.Valid := by
  constructor
  · exact valid_of_build
  · intro valid
    have weights := valid.weights_eq
    have size := congrArg List.length weights
    have sum := congrArg total weights
    simp only [Array.length_toList, valid.weights_size, List.length_cons] at size
    simp only [total_cons, Nat.zero_add] at sum
    refine build_eq_ok_iff.mpr ⟨by omega, valid.in_range, ?_, ?_⟩
    · rw [← sum]
      exact valid.bounded
    · simp only [ofParts, ← weights]

end Formula

end WeightedCnf
