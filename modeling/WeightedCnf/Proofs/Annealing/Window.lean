import WeightedCnf.Annealing.Window

namespace WeightedCnf.Annealing

def latest (n : Nat) (scores : List Float) : List Float := scores.drop (scores.length - n)

def meanStep (scores : List Float) : Float :=
  if scores.length < 2 then 0.0
  else (List.zipWith (fun a b => (b - a).abs) scores scores.tail).foldl (· + ·) 0.0 /
    (scores.length - 1).toUInt64.toFloat

def Window.holding (capacity : Nat) (scores : List Float) : Window :=
  ⟨capacity, (latest capacity scores).toArray⟩

theorem length_latest (n : Nat) (scores : List Float) : (latest n scores).length = min n scores.length := by
  rw [latest, List.length_drop]
  omega

theorem latest_append_of_full {n : Nat} {scores : List Float} (room : 0 < n) (full : n ≤ scores.length)
    (score : Float) : latest n (scores ++ [score]) = (latest n scores).tail ++ [score] := by
  have shift : scores.length + 1 - n = scores.length - n + 1 := by omega
  rw [latest, latest, List.length_append, List.length_singleton, shift,
    List.drop_append_of_le_length (by omega), List.tail_drop]

theorem latest_append_of_lt {n : Nat} {scores : List Float} (short : scores.length < n) (score : Float) :
    latest n (scores ++ [score]) = latest n scores ++ [score] := by
  have none : scores.length - n = 0 := by omega
  have still : scores.length + 1 - n = 0 := by omega
  rw [latest, latest, List.length_append, List.length_singleton, none, still, List.drop_zero,
    List.drop_zero]

namespace Window

theorem holding_nil (capacity : Nat) : holding capacity [] = ⟨capacity, #[]⟩ := by
  simp [holding, latest]

-- A score that enters a full window makes the oldest one leave.
theorem push_holding (capacity : Nat) (scores : List Float) (score : Float) :
    (holding capacity scores).push score = holding capacity (scores ++ [score]) := by
  unfold push
  split
  · rename_i empty
    have none : capacity = 0 := empty
    subst none
    simp [holding, latest]
  · rename_i nonzero
    have room : 0 < capacity := Nat.pos_of_ne_zero nonzero
    have size : (holding capacity scores).scores.size = min capacity scores.length :=
      length_latest capacity scores
    rw [size]
    split
    · rename_i filled
      have full : capacity ≤ scores.length := by
        change min capacity scores.length = capacity at filled
        omega
      have rest : (latest capacity scores).extract 1 (min capacity scores.length) =
          (latest capacity scores).tail := by
        rw [List.extract_eq_drop_take', ← length_latest, List.take_length, List.drop_one]
      simp only [holding, List.extract_toArray, rest, List.push_toArray, latest_append_of_full room full]
    · rename_i unfilled
      have short : scores.length < capacity := by
        change min capacity scores.length ≠ capacity at unfilled
        omega
      simp only [holding, List.push_toArray, latest_append_of_lt short]

theorem isFull_holding (capacity : Nat) (scores : List Float) :
    (holding capacity scores).isFull = true ↔ capacity ≤ scores.length := by
  have size : (holding capacity scores).scores.size = min capacity scores.length :=
    length_latest capacity scores
  rw [isFull, beq_iff_eq, size]
  change min capacity scores.length = capacity ↔ _
  omega

theorem fold_eq_foldl (n : Nat) (change : Nat → Float) (sum : Float) :
    Nat.fold n (fun i _ sum => sum + change i) sum = ((List.range n).map change).foldl (· + ·) sum := by
  induction n with
  | zero => rfl
  | succ n ih =>
    rw [Nat.fold_succ, ih, List.range_succ, List.map_append, List.foldl_append]
    rfl

theorem sumChanges_toArray (scores : List Float) :
    sumChanges scores.toArray =
      (List.zipWith (fun a b => (b - a).abs) scores scores.tail).foldl (· + ·) 0.0 := by
  rw [sumChanges, fold_eq_foldl]
  congr 1
  apply List.ext_getElem
  · simp
  · intro i left right
    have inside : i + 1 < scores.length := by
      simp at left
      omega
    simp [inside, Nat.lt_of_succ_lt inside]

theorem meanChange_holding (capacity : Nat) (scores : List Float) :
    (holding capacity scores).meanChange = meanStep (latest capacity scores) := by
  simp only [meanChange, meanStep, holding, List.size_toArray, sumChanges_toArray]

theorem isStagnant_holding_iff {capacity : Nat} {scores : List Float} {threshold : Float} :
    (holding capacity scores).isStagnant threshold = true ↔
      capacity ≤ scores.length ∧ meanStep (latest capacity scores) < threshold := by
  rw [isStagnant, Bool.and_eq_true, isFull_holding, decide_eq_true_iff, meanChange_holding]

end Window

end WeightedCnf.Annealing
