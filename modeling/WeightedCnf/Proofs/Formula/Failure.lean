import Mathlib.Control.Monad.Basic
import WeightedCnf.Formula.Reader
import WeightedCnf.Proofs.Formula.Valid
import WeightedCnf.Proofs.Text.Written

namespace WeightedCnf

namespace Formula

namespace Draft
variable {d between : Draft} {number nVars k : Nat} {cs : List Char} {cause : FormatError}
  {lines before : List (Option (List Char))}

def Blames (number : Nat) (cause : FormatError) : Prop :=
  cause.line? = some number ∨ cause = .missingHeader

theorem token_blames {word : List Char} (failed : token number nVars d word = .error cause) :
    Blames number cause := by
  unfold token at failed
  split at failed
  · cases failed
    exact .inl rfl
  · split at failed
    · cases failed
    · split at failed
      · cases failed
        exact .inl rfl
      · cases failed

theorem readWeights_blames {rest : List (List Char)} (failed : readWeights number rest = .error cause) :
    Blames number cause := by
  refine error_of_mapM (fun word cause raised => ?_) failed
  split at raised
  · cases raised
  · cases raised
    exact .inl rfl

theorem line_blames (failed : d.line number cs = .error cause) : Blames number cause := by
  unfold line at failed
  split at failed
  · cases failed
  · split at failed
    · cases failed
    · cases failed
      exact .inl rfl
  · split at failed
    · cases failed
      exact .inl rfl
    · rcases bind_eq_error_iff.mp failed with entries | ⟨_, _, done⟩
      · exact readWeights_blames entries
      · cases done
  · split at failed
    · cases failed
      exact .inr rfl
    · exact error_of_foldlM (fun _ _ _ => token_blames) failed

theorem finish_blames (failed : d.finish = .error cause) : cause.line? = none := by
  unfold finish at failed
  simp only at failed
  split at failed
  · cases failed
    rfl
  · split at failed
    · cases failed
      rfl
    · split at failed
      · cases failed
        rfl
      · split at failed
        · cases failed
          rfl
        · cases failed

theorem lines_append (number : Nat) (d : Draft) (before after : List (Option (List Char))) :
    d.lines number (before ++ after) =
      d.lines number before >>= fun d => d.lines (number + before.length) after := by
  induction before generalizing number d with
  | nil => rfl
  | cons first before ih =>
    cases first with
    | none => rfl
    | some cs =>
      rw [List.cons_append, lines, lines]
      split
      · rfl
      · rw [ih, List.length_cons, Nat.add_right_comm, Nat.add_assoc]

theorem lines_eq_format_iff :
    d.lines number lines = .error (.format cause) ↔
      ∃ before cs after between, lines = before ++ some cs :: after ∧
        d.lines number before = .ok between ∧
        between.line (number + before.length) cs = .error cause := by
  constructor
  · intro failed
    induction lines generalizing number d with
    | nil => cases failed
    | cons first lines ih =>
      cases first with
      | none => cases failed
      | some cs =>
        rw [Draft.lines] at failed
        split at failed
        · rename_i raised
          cases failed
          exact ⟨[], cs, lines, d, rfl, rfl, raised⟩
        · rename_i next taken
          obtain ⟨before, wrong, after, between, rfl, read, raised⟩ := ih failed
          refine ⟨some cs :: before, wrong, after, between, rfl, ?_, ?_⟩
          · rw [Draft.lines, taken]
            exact read
          · rwa [List.length_cons, ← Nat.add_assoc, Nat.add_right_comm]
  · rintro ⟨before, cs, after, between, rfl, read, raised⟩
    rw [lines_append, read]
    simp only [bind, Except.bind, Draft.lines, raised]

theorem lines_take (read : d.lines number lines = .ok between) (count : Nat) :
    ∃ earlier, d.lines number (lines.take count) = .ok earlier := by
  rw [← List.take_append_drop count lines, lines_append, bind_eq_ok_iff] at read
  obtain ⟨earlier, first, _⟩ := read
  exact ⟨earlier, first⟩

end Draft

section Lines
variable {lines : List (Option (List Char))} {cause : FormatError} {k : Nat}

-- The line that an error points at: it fails behind a draft of the lines before it.
theorem ofLines_points (failed : ofLines lines = .error (.format cause))
    (points : cause.line? = some k) :
    ∃ before cs after between, lines = before ++ some cs :: after ∧ k = before.length + 1 ∧
      Draft.empty.lines 1 before = .ok between ∧ between.line k cs = .error cause := by
  rw [ofLines, bind_eq_error_iff] at failed
  rcases failed with stopped | ⟨final, _, unfinished⟩
  · obtain ⟨before, cs, after, between, split, read, raised⟩ := Draft.lines_eq_format_iff.mp stopped
    rcases Draft.line_blames raised with numbered | unnumbered
    · rw [points, Option.some.injEq, Nat.add_comm] at numbered
      rw [Nat.add_comm, ← numbered] at raised
      exact ⟨before, cs, after, between, split, numbered, read, raised⟩
    · rw [unnumbered] at points
      cases points
  · obtain ⟨inner, raised, equal⟩ := mapError_eq_error_iff.mp unfinished
    cases equal
    rw [Draft.finish_blames raised] at points
    cases points

theorem ofLines_fails {before after : List (Option (List Char))} {cs : List Char} {between : Draft}
    (read : Draft.empty.lines 1 before = .ok between)
    (raised : between.line (before.length + 1) cs = .error cause) :
    ofLines (before ++ some cs :: after) = .error (.format cause) := by
  refine bind_eq_error_iff.mpr (.inl (Draft.lines_eq_format_iff.mpr ?_))
  exact ⟨before, cs, after, between, rfl, read, by rwa [Nat.add_comm]⟩

-- Lines that are all taken can only turn out to be incomplete.
theorem line?_of_taken {between : Draft} (read : Draft.empty.lines 1 lines = .ok between)
    (failed : ofLines lines = .error (.format cause)) : cause.line? = none := by
  rw [ofLines, read] at failed
  obtain ⟨inner, raised, equal⟩ := mapError_eq_error_iff.mp failed
  cases equal
  exact Draft.finish_blames raised

end Lines

-- What an error that points at line `k` says of a text. All texts with the same first `k` lines fail alike,
-- and the text can be cut before line `k`: there, as before any earlier line, no line is wrong.
structure PointsAtFirst (bytes : ByteArray) (cause : FormatError) (k : Nat) : Prop where
  counted : 0 < k ∧ k ≤ (Text.byteLines bytes).length
  settled : ∀ other : ByteArray, (Text.byteLines other).take k = (Text.byteLines bytes).take k →
    ofBytes other = .error (.format cause)
  divided : ∃ front rest : ByteArray, bytes.toList = front.toList ++ rest.toList ∧
    Text.byteLines front = (Text.byteLines bytes).take (k - 1) ∧
    Text.byteLines rest = (Text.byteLines bytes).drop (k - 1)
  clean : ∀ (front : ByteArray) (count : Nat), count < k →
    Text.byteLines front = (Text.byteLines bytes).take count →
    ∀ earlier, ofBytes front = .error (.format earlier) → earlier.line? = none

theorem error_points_at_first_wrong_line {bytes : ByteArray} {cause : FormatError} {k : Nat}
    (failed : ofBytes bytes = .error (.format cause)) (points : cause.line? = some k) :
    PointsAtFirst bytes cause k := by
  obtain ⟨before, cs, after, between, split, rfl, read, raised⟩ := ofLines_points failed points
  have here : (Text.byteLines bytes).take (before.length + 1) = before ++ [some cs] := by
    rw [split, List.take_length_add_append, List.take_succ_cons, List.take_zero]
  refine ⟨⟨Nat.succ_pos _, by simp [split]⟩, ?_, ?_, ?_⟩
  · intro other same
    have lines := List.take_append_drop (before.length + 1) (Text.byteLines other)
    rw [same, here, List.append_assoc, List.singleton_append] at lines
    rw [ofBytes, ← lines]
    exact ofLines_fails read raised
  · obtain ⟨front, rest, whole, kept, left⟩ :=
      Text.exists_cut (· == (10 : UInt8)) before.length bytes.toList
    refine ⟨⟨front.toArray⟩, ⟨rest.toArray⟩, ?_, ?_, ?_⟩
    · simpa only [Text.toList_eq_data] using whole
    · rw [Text.byteLines, Text.byteLines, Text.toList_eq_data, kept, List.map_take, Nat.add_sub_cancel]
    · rw [Text.byteLines, Text.byteLines, Text.toList_eq_data, left, List.map_drop, Nat.add_sub_cancel]
  · intro front count early same earlier stopped
    have prefix_eq : (Text.byteLines bytes).take count = before.take count := by
      rw [split, List.take_append_of_le_length (by omega)]
    obtain ⟨taken, complete⟩ := Draft.lines_take read count
    rw [ofBytes, same, prefix_eq] at stopped
    exact line?_of_taken complete stopped

-- A comment and a blank line are counted. The word is refused although its line goes on, and the lines
-- behind it, wrong in three ways, are not looked at.
theorem error_points_at_first_wrong_line_fifth :
    let text := "c note\n\np cnf 3 1\r\nw 1 2 3 0\n1 -2 x 9 0\nw 1 0\np cnf\n7 0\n"
    let cause := FormatError.invalidToken 5 "x"
    ofBytes text.toUTF8 = .error (.format cause) ∧ cause.line? = some 5 ∧
      PointsAtFirst text.toUTF8 cause 5 := by
  intro text cause
  have failed : ofBytes text.toUTF8 = .error (.format cause) := by decide +kernel
  exact ⟨failed, rfl, error_points_at_first_wrong_line failed rfl⟩

end Formula

end WeightedCnf
