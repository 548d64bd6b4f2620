import WeightedCnf.Proofs.Formula.Reading
import WeightedCnf.Proofs.Text.Written

-- Every variable has a weight, every weight is a word of one line, and no two words share a character.

namespace WeightedCnf

namespace Text

theorem flatten_splitOnP (isEnd : α → Bool) (xs : List α) :
    (xs.splitOnP isEnd).flatten = xs.filter (!isEnd ·) := by
  induction xs with
  | nil => simp [List.splitOnP_nil]
  | cons x xs ih =>
    obtain ⟨first, rest, parts⟩ := List.exists_cons_of_ne_nil (List.splitOnP_ne_nil isEnd xs)
    rw [List.splitOnP_cons_eq_if_modifyHead, List.filter_cons, ← ih, parts]
    cases isEnd x <;> simp

theorem length_le_of_mem_cutAfter {isEnd : α → Bool} {xs part : List α}
    (member : part ∈ cutAfter isEnd xs) : part.length ≤ xs.length := by
  have inside : part ∈ xs.splitOnP isEnd := by
    unfold cutAfter at member
    dsimp only at member
    split at member
    · exact (List.dropLast_sublist _).subset member
    · exact member
  calc part.length ≤ (xs.splitOnP isEnd).flatten.length :=
        (List.sublist_flatten_of_mem inside).length_le
    _ ≤ xs.length := by
        rw [flatten_splitOnP]
        exact List.length_filter_le _ _

theorem length_filter_nonempty_le (parts : List (List α)) :
    (parts.filter (!·.isEmpty)).length ≤ parts.flatten.length := by
  induction parts with
  | nil => exact Nat.le_refl _
  | cons part parts ih =>
    cases part with
    | nil => simpa using ih
    | cons x part =>
      simp only [List.filter_cons, List.isEmpty_cons, Bool.not_false, if_true, List.length_cons,
        List.flatten_cons, List.length_append]
      omega

theorem length_words_le (cs : List Char) : (words cs).length ≤ cs.length := by
  calc (words cs).length ≤ (cs.splitOnP isBlank).flatten.length := length_filter_nonempty_le _
    _ ≤ cs.length := by
        rw [flatten_splitOnP]
        exact List.length_filter_le _ _

theorem length_le_encoded (cs : List Char) : cs.length ≤ (encoded cs).length := by
  induction cs with
  | nil => exact Nat.le_refl _
  | cons c cs ih =>
    have some : 0 < (String.utf8EncodeChar c).length :=
      List.length_pos_iff.mpr (String.utf8EncodeChar_ne_nil)
    have split : encoded (c :: cs) = String.utf8EncodeChar c ++ encoded cs := rfl
    rw [split, List.length_append, List.length_cons]
    omega

theorem length_le_of_mem_byteLines {bytes : ByteArray} {cs : List Char}
    (member : some cs ∈ byteLines bytes) : cs.length ≤ bytes.size := by
  obtain ⟨line, cut, decoded⟩ := List.mem_map.mp member
  obtain ⟨s, read, rfl⟩ := Option.map_eq_some_iff.mp decoded
  have whole := length_le_of_mem_cutAfter cut
  rw [toList_eq_data] at whole
  have same : s.toUTF8.toList = line := by
    unfold String.fromUTF8? at read
    split at read <;> cases read
    exact toList_eq_data _
  have short := length_le_encoded s.toList
  rw [← toList_toUTF8, same] at short
  exact Nat.le_trans short whole

end Text

namespace Formula

theorem length_le_of_weights {cs : List Char} {rest : List (List Char)}
    (kind : Line.ofChars cs = .weights rest) : rest.length ≤ cs.length := by
  have few := Text.length_words_le cs
  unfold Line.ofChars at kind
  split at kind
  · cases kind
  · rename_i first words split
    rw [split, List.length_cons] at few
    split at kind <;> cases kind
    omega

namespace Draft

def FewWeights (limit : Nat) (d : Draft) : Prop :=
  ∀ weights, d.weights = some weights → weights.length ≤ limit

variable {limit number : Nat} {d d' : Draft}

theorem line_fewWeights {cs : List Char} (short : cs.length ≤ limit) (few : d.FewWeights limit)
    (read : d.line number cs = .ok d') : d'.FewWeights limit := by
  unfold line at read
  split at read
  · cases read
    exact few
  · split at read <;> cases read
    exact few
  · rename_i rest kind
    split at read
    · cases read
    · obtain ⟨weights, listed, made⟩ := bind_eq_ok_iff.mp read
      cases made
      rintro _ ⟨⟩
      have words := length_le_of_weights kind
      have count := length_of_mapM_eq_ok listed
      rw [List.length_dropLast] at count
      omega
  · split at read
    · cases read
    · unfold FewWeights
      rw [(foldlM_token_takes read).weights]
      exact few

theorem lines_fewWeights {lines : List (Option (List Char))}
    (short : ∀ cs, some cs ∈ lines → cs.length ≤ limit) (few : d.FewWeights limit)
    (read : d.lines number lines = .ok d') : d'.FewWeights limit := by
  induction lines generalizing d number with
  | nil =>
    cases read
    exact few
  | cons line lines ih =>
    cases line with
    | none => cases read
    | some cs =>
      rw [Draft.lines] at read
      split at read
      · cases read
      · rename_i between taken
        exact ih (fun other later => short other (List.mem_cons_of_mem _ later))
          (line_fewWeights (short cs (by simp)) few taken) read

theorem nVars_le_of_finish {f : Formula} (few : d.FewWeights limit) (made : d.finish = .ok f) :
    f.nVars ≤ limit := by
  unfold finish at made
  dsimp only at made
  split at made
  · cases made
  · split at made
    · cases made
    · rename_i weights listed
      rw [(close_takes 0 d).weights] at listed
      have count := few weights listed
      split at made
      · cases made
      · rename_i arity
        split at made <;> cases made
        simp only [ofParts]
        omega

end Draft

theorem nVars_le_size {bytes : ByteArray} {f : Formula} (read : ofBytes bytes = .ok f) :
    f.nVars ≤ bytes.size := by
  obtain ⟨d, taken, finished⟩ := bind_eq_ok_iff.mp read
  have none : Draft.empty.FewWeights bytes.size := by rintro _ ⟨⟩
  have few := Draft.lines_fewWeights (fun _ member => Text.length_le_of_mem_byteLines member) none taken
  exact Draft.nVars_le_of_finish few (mapError_eq_ok_iff.mp finished)

end Formula

end WeightedCnf
