import WeightedCnf.Text.Blank
import WeightedCnf.Text.Integer
import WeightedCnf.Text.Lines

namespace WeightedCnf.Text

def IsWord (cs : List Char) : Prop := cs ≠ [] ∧ ∀ c ∈ cs, isBlank c = false

instance (cs : List Char) : Decidable (IsWord cs) :=
  decidable_of_iff (cs.isEmpty = false ∧ cs.all (!isBlank ·) = true) (by simp [IsWord])

theorem words_of_isWord {w : List Char} (word : IsWord w) : words w = [w] := by
  obtain ⟨some, solid⟩ := word
  rw [words, List.splitOnP_eq_singleton solid]
  simp [some]

theorem words_append_blank {w : List Char} {c : Char} (word : IsWord w) (blank : isBlank c = true)
    (rest : List Char) : words (w ++ c :: rest) = w :: words rest := by
  rw [words_append_cons blank, words_of_isWord word, List.singleton_append]

theorem isBlank_of_isDigit {c : Char} (digit : c.isDigit = true) : isBlank c = false := by
  simp only [Char.isDigit, Bool.and_eq_true, decide_eq_true_eq, ge_iff_le, UInt32.le_iff_toNat_le] at digit
  obtain ⟨low, high⟩ := digit
  have low : 48 ≤ c.toNat := low
  have high : c.toNat ≤ 57 := high
  simp only [isBlank, Bool.or_eq_false_iff, Bool.and_eq_false_iff, decide_eq_false_iff_not, beq_eq_false_iff_ne]
  omega

theorem isDigit_of_mem_toDigits {n : Nat} {c : Char} (member : c ∈ Nat.toDigits 10 n) : c.isDigit = true :=
  Nat.isDigit_of_mem_toDigits (by decide) (by decide) member

theorem isWord_toDigits (n : Nat) : IsWord (Nat.toDigits 10 n) :=
  ⟨Nat.toDigits_ne_nil, fun _ member => isBlank_of_isDigit (isDigit_of_mem_toDigits member)⟩

theorem toList_toString_nat (n : Nat) : (toString n).toList = Nat.toDigits 10 n := by
  rw [Nat.toString_eq_repr, Nat.toList_repr]

theorem toList_toString_int (i : Int) :
    (toString i).toList = (if i < 0 then ['-'] else []) ++ Nat.toDigits 10 i.natAbs := by
  cases i with
  | ofNat n =>
    have digits : (toString (Int.ofNat n)).toList = (toString n).toList := rfl
    rw [digits, toList_toString_nat, if_neg (by simp)]
    rfl
  | negSucc n =>
    have digits : toString (Int.negSucc n) = "-" ++ (n + 1).repr := rfl
    rw [digits, String.toList_append, Nat.toList_repr, if_pos (Int.negSucc_lt_zero n)]
    rfl

theorem isWord_toString_nat (n : Nat) : IsWord (toString n).toList := by
  rw [toList_toString_nat]
  exact isWord_toDigits n

theorem isWord_toString_int (i : Int) : IsWord (toString i).toList := by
  obtain ⟨some, solid⟩ := isWord_toDigits i.natAbs
  rw [toList_toString_int]
  refine ⟨by simp [some], ?_⟩
  intro c member
  rcases List.mem_append.mp member with sign | digit
  · split at sign
    · rw [List.mem_singleton.mp sign]
      decide
    · cases sign
  · exact solid c digit

-- No sign stands in front of digits.
theorem natBelow?_toDigits {limit n : Nat} (small : n < limit) :
    natBelow? limit (Nat.toDigits 10 n) = some n := by
  have read := digits?_toDigits n
  unfold natBelow?
  split
  · rename_i rest signed
    have digit : '+'.isDigit = true := isDigit_of_mem_toDigits (n := n) (by simp [signed])
    cases digit
  · simp [read, small]

theorem int64?_toString {i : Int} (low : -9223372036854775808 ≤ i) (high : i < 9223372036854775808) :
    int64? (toString i).toList = some i := by
  rw [toList_toString_int]
  by_cases negative : i < 0
  · have small : i.natAbs ≤ 9223372036854775808 := by omega
    have value : -(i.natAbs : Int) = i := by omega
    rw [if_pos negative, List.singleton_append]
    simp only [int64?, digits?_toDigits, Option.filter_some, small, decide_true, if_true]
    exact congrArg some value
  · have small : i.natAbs < 9223372036854775808 := by omega
    have value : (i.natAbs : Int) = i := by omega
    rw [if_neg negative, List.nil_append]
    unfold int64?
    split
    · rename_i rest signed
      have digit : '-'.isDigit = true := isDigit_of_mem_toDigits (n := i.natAbs) (by simp [signed])
      cases digit
    · rw [natBelow?_toDigits small]
      exact congrArg some value

def numbers (ints : List Int) : String := String.join (ints.map fun i => toString i ++ " ") ++ "0"

theorem words_numbers (ints : List Int) :
    words (numbers ints).toList = ints.map (fun i => (toString i).toList) ++ [['0']] := by
  induction ints with
  | nil => decide
  | cons i ints ih =>
    simp only [numbers, String.toList_append, String.toList_join, List.map_cons, List.flatMap_cons,
      List.append_assoc] at ih ⊢
    have first := words_append_blank (isWord_toString_int i) (c := ' ') (by decide)
    exact (first _).trans (congrArg _ ih)

theorem single_line_of_isWord {w : List Char} (word : IsWord w) : '\n' ∉ w := by
  intro member
  have solid := word.2 '\n' member
  revert solid
  decide

theorem single_line_numbers (ints : List Int) : '\n' ∉ (numbers ints).toList := by
  induction ints with
  | nil => decide
  | cons i ints ih =>
    have first := single_line_of_isWord (isWord_toString_int i)
    simp only [numbers, String.toList_append, String.toList_join, List.map_cons, List.flatMap_cons,
      List.mem_append, not_or] at ih ⊢
    exact ⟨⟨⟨first, by decide⟩, ih.1⟩, ih.2⟩

theorem cutAfter_append {isEnd : α → Bool} {line rest : List α} {mark : α}
    (inside : ∀ x ∈ line, isEnd x = false) (ends : isEnd mark = true) :
    cutAfter isEnd (line ++ mark :: rest) = line :: cutAfter isEnd rest := by
  have parts : (line ++ mark :: rest).splitOnP isEnd = line :: rest.splitOnP isEnd := by
    rw [List.splitOnP_append_cons line rest ends, List.splitOnP_eq_singleton inside, List.singleton_append]
  have some : rest.splitOnP isEnd ≠ [] := List.splitOnP_ne_nil _ _
  simp only [cutAfter, parts, List.getLast?_cons_of_ne_nil some, List.dropLast_cons_of_ne_nil some]
  split <;> rfl

theorem cutAfter_nil (isEnd : α → Bool) : cutAfter isEnd [] = [] := by
  simp [cutAfter, List.splitOnP_nil]

theorem cutAfter_of_inside {isEnd : α → Bool} {xs : List α} (inside : ∀ x ∈ xs, isEnd x = false) :
    cutAfter isEnd xs = if xs.isEmpty then [] else [xs] := by
  simp [cutAfter, List.splitOnP_eq_singleton inside]

theorem exists_cut (isEnd : α → Bool) (count : Nat) (xs : List α) :
    ∃ front rest, xs = front ++ rest ∧ cutAfter isEnd front = (cutAfter isEnd xs).take count ∧
      cutAfter isEnd rest = (cutAfter isEnd xs).drop count := by
  induction count generalizing xs with
  | zero => exact ⟨[], xs, rfl, cutAfter_nil isEnd, rfl⟩
  | succ count ih =>
    cases found : xs.find? isEnd with
    | none =>
      have solid : ∀ x ∈ xs, isEnd x = false := by simpa using found
      have whole := cutAfter_of_inside solid
      refine ⟨xs, [], by simp, ?_, ?_⟩
      · rw [whole]
        split <;> simp
      · rw [whole, cutAfter_nil]
        split <;> simp
    | some mark =>
      obtain ⟨ends, line, after, rfl, inside⟩ := List.find?_eq_some_iff_append.mp found
      have solid : ∀ x ∈ line, isEnd x = false := by simpa using inside
      obtain ⟨front, rest, rfl, kept, left⟩ := ih after
      refine ⟨line ++ mark :: front, rest, by simp, ?_, ?_⟩
      · rw [cutAfter_append solid ends, cutAfter_append solid ends, kept, List.take_succ_cons]
      · rw [left, cutAfter_append solid ends, List.drop_succ_cons]

theorem lines_append {line : String} (inside : '\n' ∉ line.toList) (rest : String) :
    lines (line ++ "\n" ++ rest) = line.toList :: lines rest := by
  have single : ∀ c ∈ line.toList, (c == '\n') = false := by
    intro c member
    exact beq_eq_false_iff_ne.mpr fun equal => inside (equal ▸ member)
  simp only [lines, String.toList_append, List.append_assoc]
  exact cutAfter_append single (by decide)

theorem lines_empty : lines "" = [] := cutAfter_nil _

theorem lines_join {ls : List String} (single : ∀ l ∈ ls, '\n' ∉ l.toList) :
    lines (String.join (ls.map (· ++ "\n"))) = ls.map String.toList := by
  induction ls with
  | nil => exact lines_empty
  | cons l ls ih =>
    have rest := ih fun other later => single other (List.mem_cons_of_mem _ later)
    rw [List.map_cons, String.join_cons, List.map_cons, ← rest]
    exact lines_append (single l (by simp)) _

theorem toList_loop (bytes : ByteArray) (i : Nat) (seen : List UInt8) :
    ByteArray.toList.loop bytes i seen = seen.reverse ++ bytes.data.toList.drop i := by
  fun_induction ByteArray.toList.loop bytes i seen with
  | case1 i seen more ih =>
    have slot : i < bytes.data.size := more
    have read : bytes.get! i = bytes.data[i] := getElem!_pos bytes.data i slot
    have rest : bytes.data.toList.drop i = bytes.data[i] :: bytes.data.toList.drop (i + 1) :=
      List.drop_eq_getElem_cons slot
    rw [ih, rest, read]
    simp
  | case2 i seen done =>
    have past : bytes.data.toList.length ≤ i := Nat.not_lt.mp done
    rw [List.drop_eq_nil_of_le past, List.append_nil]

theorem toList_eq_data (bytes : ByteArray) : bytes.toList = bytes.data.toList :=
  toList_loop bytes 0 []

def encoded (cs : List Char) : List UInt8 := cs.flatMap String.utf8EncodeChar

theorem toList_toUTF8 (s : String) : s.toUTF8.toList = encoded s.toList := by
  rw [toList_eq_data, String.toUTF8_eq_toByteArray, ← String.utf8Encode_toList, List.utf8Encode,
    List.toList_data_toByteArray]
  rfl

theorem fromUTF8?_encoded (cs : List Char) :
    String.fromUTF8? ⟨(encoded cs).toArray⟩ = some (String.ofList cs) := by
  have same : (⟨(encoded cs).toArray⟩ : ByteArray) = cs.utf8Encode := by
    apply ByteArray.ext
    apply Array.toList_inj.mp
    rw [List.utf8Encode, List.toList_data_toByteArray]
    rfl
  rw [same, String.fromUTF8?, dif_pos ByteArray.isValidUTF8_utf8Encode]
  exact congrArg some (String.toByteArray_inj.mp (by simp [String.fromUTF8]))

-- A character beyond ASCII has no byte of ASCII in its code.
theorem high_of_mem_encode {c : Char} (large : ¬ c.val.toNat ≤ 127) :
    ∀ b ∈ String.utf8EncodeChar c, 128 ≤ b.toNat := by
  simp only [String.utf8EncodeChar, if_neg large]
  split
  · simp only [List.forall_mem_cons, UInt8.toNat_ofNat']
    exact ⟨by omega, by omega, by simp⟩
  · split
    · simp only [List.forall_mem_cons, UInt8.toNat_ofNat']
      exact ⟨by omega, by omega, by omega, by simp⟩
    · simp only [List.forall_mem_cons, UInt8.toNat_ofNat']
      exact ⟨by omega, by omega, by omega, by omega, by simp⟩

theorem ne_lineFeed_of_mem_encode {c : Char} (other : c ≠ '\n') {b : UInt8}
    (member : b ∈ String.utf8EncodeChar c) : (b == 10) = false := by
  rw [beq_eq_false_iff_ne]
  rintro rfl
  by_cases small : c.val.toNat ≤ 127
  · simp only [String.utf8EncodeChar, if_pos small] at member
    have code := congrArg UInt8.toNat (List.mem_singleton.mp member)
    rw [UInt8.toNat_ofNat', Nat.mod_eq_of_lt (by omega)] at code
    exact other (Char.ext (UInt32.toNat_inj.mp code.symm))
  · have high := high_of_mem_encode small 10 member
    revert high
    decide

theorem splitOnP_append {isEnd : α → Bool} {start : List α} (inside : ∀ x ∈ start, isEnd x = false)
    (rest : List α) :
    (start ++ rest).splitOnP isEnd = (rest.splitOnP isEnd).modifyHead (start ++ ·) := by
  induction start with
  | nil =>
    obtain ⟨line, lines, parts⟩ := List.exists_cons_of_ne_nil (List.splitOnP_ne_nil isEnd rest)
    simp [parts]
  | cons x start ih =>
    have later := ih fun y member => inside y (List.mem_cons_of_mem _ member)
    rw [List.cons_append, List.splitOnP_cons_eq_if_modifyHead, later, if_neg (by simp [inside x])]
    simp [List.modifyHead_modifyHead, Function.comp_def]

theorem splitOnP_encoded (cs : List Char) :
    (encoded cs).splitOnP (· == 10) = (cs.splitOnP (· == '\n')).map encoded := by
  induction cs with
  | nil => rfl
  | cons c cs ih =>
    rw [List.splitOnP_cons_eq_if_modifyHead]
    by_cases feed : c = '\n'
    · subst feed
      have first : encoded ('\n' :: cs) = 10 :: encoded cs := rfl
      rw [first, List.splitOnP_cons_eq_if_modifyHead, if_pos (by decide), if_pos (by decide), ih]
      rfl
    · have first : encoded (c :: cs) = String.utf8EncodeChar c ++ encoded cs := rfl
      rw [first, splitOnP_append fun b => ne_lineFeed_of_mem_encode feed, ih, if_neg (by simpa using feed)]
      obtain ⟨line, lines, parts⟩ := List.exists_cons_of_ne_nil (List.splitOnP_ne_nil (· == '\n') cs)
      rw [parts]
      rfl

theorem isEmpty_encoded (cs : List Char) : (encoded cs).isEmpty = cs.isEmpty := by
  cases cs with
  | nil => rfl
  | cons c cs => simp [encoded, String.utf8EncodeChar_ne_nil]

theorem cutAfter_encoded (cs : List Char) :
    cutAfter (· == 10) (encoded cs) = (cutAfter (· == '\n') cs).map encoded := by
  simp only [cutAfter, splitOnP_encoded, List.getLast?_map, Option.map_map, Function.comp_def,
    isEmpty_encoded]
  split
  · rw [List.map_dropLast]
  · rfl

theorem byteLines_toUTF8 (s : String) : byteLines s.toUTF8 = decodedLines s := by
  simp only [byteLines, decodedLines, lines, toList_toUTF8, cutAfter_encoded, List.map_map]
  refine List.map_congr_left fun line _ => ?_
  simp [fromUTF8?_encoded]

end WeightedCnf.Text
