import WeightedCnf.Model
import WeightedCnf.Proofs.Formula.Valid
import WeightedCnf.Proofs.Text.Written

namespace WeightedCnf

open Text

namespace Assignment

def literalsFrom (first : Nat) (values : List Bool) : List Literal :=
  (values.zipIdx first).map fun (value, var) => ⟨var, !value⟩

def intsFrom (first : Nat) (values : List Bool) : List Int :=
  (values.zipIdx first).map fun (value, var) => if value then (var : Int) else -(var : Int)

theorem toInts_eq (values : List Bool) : (⟨values.toArray⟩ : Assignment).toInts = intsFrom 1 values := by
  simp [toInts, pairs, intsFrom, Function.comp_def]

theorem ofInt?_intsFrom {first : Nat} (positive : 0 < first) (values : List Bool) :
    (intsFrom first values).filterMap Literal.ofInt? = literalsFrom first values := by
  induction values generalizing first with
  | nil => rfl
  | cons value values ih =>
    have rest := @ih (first + 1) (Nat.succ_pos _)
    have nonzero : first ≠ 0 := Nat.ne_of_gt positive
    have here : Literal.ofInt? (if value then (first : Int) else -(first : Int)) =
        some ⟨first, !value⟩ := by
      cases value <;> simp [Literal.ofInt?, nonzero, positive]
    simp only [intsFrom, literalsFrom] at rest
    simp only [intsFrom, literalsFrom, List.zipIdx_cons, List.map_cons, List.filterMap_cons, here, rest]

-- The values are set one after the other; the ones before stay as they are.
theorem foldlM_satisfy (done values : List Bool) :
    (literalsFrom (done.length + 1) values).foldlM (satisfy (done.length + values.length))
        ⟨(done ++ List.replicate values.length false).toArray⟩ =
      .ok ⟨(done ++ values).toArray⟩ := by
  induction values generalizing done with
  | nil => rfl
  | cons value values ih =>
    have rest := ih (done ++ [value])
    simp only [List.length_append, List.length_cons, List.length_nil, Nat.zero_add,
      List.append_assoc, List.cons_append, List.nil_append] at rest
    have room : done.length + (values.length + 1) = done.length + 1 + values.length := by omega
    have inside : ¬ done.length + 1 + values.length < done.length + 1 := by omega
    have here : satisfy (done.length + 1 + values.length)
        ⟨(done ++ List.replicate (values.length + 1) false).toArray⟩ ⟨done.length + 1, !value⟩ =
          .ok ⟨(done ++ value :: List.replicate values.length false).toArray⟩ := by
      simp [satisfy, inside, List.replicate_succ]
    simp only [literalsFrom, List.zipIdx_cons, List.map_cons, List.foldlM_cons, List.length_cons, room,
      here, bind, Except.bind]
    exact rest

theorem ofInts_toInts {values : List Bool} (small : values.length < tableLimit) :
    ofInts values.length ((⟨values.toArray⟩ : Assignment).toInts ++ [0]) = .ok ⟨values.toArray⟩ := by
  have start : allFalse values.length = .ok ⟨(List.replicate values.length false).toArray⟩ := by
    simp [allFalse, reserve, small, bind, Except.bind, pure, Except.pure]
  have literals : (intsFrom 1 values ++ [0]).filterMap Literal.ofInt? = literalsFrom 1 values := by
    rw [List.filterMap_append, ofInt?_intsFrom (by decide)]
    simp [Literal.ofInt?]
  have set := foldlM_satisfy [] values
  simp only [List.length_nil, Nat.zero_add, List.nil_append] at set
  rw [toInts_eq, ofInts, start, literals]
  exact set

theorem bounds_of_mem_intsFrom {first : Nat} {values : List Bool} {i : Int}
    (member : i ∈ intsFrom first values) : i.natAbs < first + values.length := by
  simp only [intsFrom, List.mem_map, Prod.exists, List.mem_zipIdx_iff_le_and_getElem?_sub] at member
  obtain ⟨value, var, ⟨later, found⟩, rfl⟩ := member
  have inside := (List.getElem?_eq_some_iff.mp found).1
  split <;> omega

end Assignment

namespace Model

theorem line_eq (a : Assignment) : line a = "v " ++ numbers a.toInts := by
  simp only [line, numbers, String.append_assoc]

theorem words_line (a : Assignment) :
    words (line a).toList = ['v'] :: (a.toInts.map (fun i => (toString i).toList) ++ [['0']]) := by
  have mark : IsWord ['v'] := by decide
  rw [line_eq, String.toList_append, ← words_numbers]
  exact words_append_blank mark (c := ' ') (by decide) _

theorem single_line (a : Assignment) : '\n' ∉ (line a).toList := by
  rw [line_eq, String.toList_append, List.mem_append, not_or]
  exact ⟨by decide, single_line_numbers _⟩

theorem lineInts_line {values : List Bool} (small : values.length < tableLimit) (number : Nat) :
    lineInts number (line ⟨values.toArray⟩).toList =
      .ok ((⟨values.toArray⟩ : Assignment).toInts ++ [0]) := by
  have listed : words (line ⟨values.toArray⟩).toList =
      ['v'] :: ((⟨values.toArray⟩ : Assignment).toInts ++ [0]).map fun i => (toString i).toList := by
    rw [words_line, List.map_append]
    rfl
  have mark : marked? (line ⟨values.toArray⟩).toList =
      some (((⟨values.toArray⟩ : Assignment).toInts ++ [0]).map fun i => (toString i).toList) := by
    rw [marked?, listed]
    rfl
  rw [lineInts, mark, Option.getD_some, List.mapM_map]
  refine (mapM_eq_ok fun i member => ?_).trans (congrArg Except.ok (List.map_id _))
  have bounds : i.natAbs < tableLimit := by
    rcases List.mem_append.mp member with inside | zero
    · rw [Assignment.toInts_eq] at inside
      have near := Assignment.bounds_of_mem_intsFrom inside
      omega
    · rw [List.mem_singleton.mp zero]
      decide
  unfold tableLimit at bounds
  simp only [Function.comp_apply, int64?_toString (i := i) (by omega) (by omega), id_eq]

-- A line of another kind has no numbers of a model.
theorem marked?_of_word {c : Char} (other : c ≠ 'v') (solid : isBlank c = false) (rest : List Char) :
    marked? (c :: ' ' :: rest) = none := by
  have word : IsWord [c] := ⟨by simp, by simpa using solid⟩
  have listed := words_append_blank word (c := ' ') (by decide) rest
  simp only [List.singleton_append] at listed
  rw [marked?, listed]
  split
  · rename_i equal
    cases equal
    exact absurd rfl other
  · rfl

end Model

end WeightedCnf
