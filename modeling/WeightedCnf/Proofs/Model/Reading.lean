import WeightedCnf.Proofs.Model
import WeightedCnf.Proofs.Text.Pieces

namespace WeightedCnf

open Text

namespace Assignment

def write (a : Assignment) (l : Literal) : Assignment :=
  ⟨a.values.setIfInBounds (l.var - 1) (!l.negated)⟩

section Writes
variable {nVars var : Nat} {ls : List Literal} {start a : Assignment}

theorem size_foldl_write (ls : List Literal) (start : Assignment) :
    (ls.foldl write start).size = start.size := by
  induction ls generalizing start with
  | nil => rfl
  | cons l ls ih =>
    rw [List.foldl_cons, ih]
    exact Array.size_setIfInBounds

theorem foldlM_satisfy_eq_ok_iff :
    ls.foldlM (satisfy nVars) start = .ok a ↔ (∀ l ∈ ls, l.var ≤ nVars) ∧ a = ls.foldl write start := by
  induction ls generalizing start with
  | nil => simp [pure, Except.pure, eq_comm]
  | cons l ls ih =>
    rw [List.foldlM_cons, bind_eq_ok_iff, List.forall_mem_cons, List.foldl_cons]
    by_cases outside : nVars < l.var
    · simp [satisfy, outside, Nat.not_le.mpr outside]
    · have step : satisfy nVars start l = .ok (start.write l) := if_neg outside
      simp only [step, Except.ok.injEq, exists_eq_left', ih, Nat.not_lt.mp outside, true_and]

theorem value_write {l : Literal} (first : 0 < var) (last : var ≤ start.size) (pos : 0 < l.var) :
    (start.write l).value var = if l.var = var then .ok (!l.negated) else start.value var := by
  have inside : var - 1 < start.values.size := by
    unfold size at last
    omega
  have back : subtract var 1 = .ok (var - 1) := subtract_eq_ok_iff.mpr ⟨first, rfl⟩
  simp only [value, write, entry, back, bind, Except.bind]
  by_cases same : l.var = var
  · simp [same, inside]
  · have other : l.var - 1 ≠ var - 1 := by omega
    rw [Array.getElem?_setIfInBounds_ne other, if_neg same]

-- The last literal of a variable decides; a variable without one keeps its value.
theorem value_foldl_write (first : 0 < var) (last : var ≤ start.size) (pos : ∀ l ∈ ls, 0 < l.var) :
    (ls.foldl write start).value var =
      match (ls.filter (·.var == var)).getLast? with
      | some l => .ok !l.negated
      | none => start.value var := by
  induction ls generalizing start with
  | nil => rfl
  | cons l ls ih =>
    obtain ⟨here, later⟩ := List.forall_mem_cons.mp pos
    have size : (start.write l).size = start.size := Array.size_setIfInBounds
    rw [List.foldl_cons, ih (by omega) later, value_write first last here, List.filter_cons]
    by_cases same : l.var = var
    · simp only [same, beq_self_eq_true, if_true, List.getLast?_cons]
      cases (ls.filter (·.var == var)).getLast? <;> rfl
    · have other : (l.var == var) = false := beq_eq_false_iff_ne.mpr same
      simp only [same, other, if_false, Bool.false_eq_true]

end Writes

def lastIsPositive (ints : List Int) (var : Nat) : Bool :=
  ((ints.filter (·.natAbs == var)).getLast?).any (0 < ·)

section Numbers
variable {nVars var : Nat} {ints : List Int} {a : Assignment}

theorem var_eq_natAbs {i : Int} {l : Literal} (literal : Literal.ofInt? i = some l) :
    l.var = i.natAbs ∧ 0 < l.var ∧ l.negated = decide (i < 0) := by
  unfold Literal.ofInt? at literal
  split at literal
  · cases literal
  · rename_i nonzero
    cases literal
    exact ⟨rfl, Int.natAbs_pos.mpr nonzero, rfl⟩

theorem filter_ofInt? (first : 0 < var) (ints : List Int) :
    (ints.filterMap Literal.ofInt?).filter (·.var == var) =
      (ints.filter (·.natAbs == var)).map fun i => ⟨var, decide (i < 0)⟩ := by
  induction ints with
  | nil => rfl
  | cons i ints ih =>
    by_cases zero : i = 0
    · have skipped : Literal.ofInt? i = none := by simp [Literal.ofInt?, zero]
      have other : (i.natAbs == var) = false := by
        rw [zero]
        exact beq_eq_false_iff_ne.mpr (Nat.ne_of_lt first)
      rw [List.filterMap_cons_none skipped, List.filter_cons, other, ih]
      rfl
    · have literal : Literal.ofInt? i = some ⟨i.natAbs, decide (i < 0)⟩ := by
        simp [Literal.ofInt?, zero]
      rw [List.filterMap_cons_some literal, List.filter_cons, List.filter_cons]
      by_cases same : i.natAbs = var
      · simp [same, ih]
      · have other : (i.natAbs == var) = false := beq_eq_false_iff_ne.mpr same
        simp [other, ih]

theorem in_range_literals_iff :
    (∀ l ∈ ints.filterMap Literal.ofInt?, l.var ≤ nVars) ↔ ∀ i ∈ ints, i.natAbs ≤ nVars := by
  constructor
  · intro inside i member
    by_cases zero : i = 0
    · simp [zero]
    · have literal : Literal.ofInt? i = some ⟨i.natAbs, decide (i < 0)⟩ := by
        simp [Literal.ofInt?, zero]
      exact inside _ (List.mem_filterMap.mpr ⟨i, member, literal⟩)
  · intro inside l member
    obtain ⟨i, listed, literal⟩ := List.mem_filterMap.mp member
    rw [(var_eq_natAbs literal).1]
    exact inside i listed

theorem allFalse_eq (small : nVars < tableLimit) :
    allFalse nVars = .ok ⟨Array.replicate nVars false⟩ := by
  simp [allFalse, reserve, small, bind, Except.bind, pure, Except.pure]

theorem ofInts_eq_ok_iff (small : nVars < tableLimit) :
    ofInts nVars ints = .ok a ↔ (∀ i ∈ ints, i.natAbs ≤ nVars) ∧
      a = (ints.filterMap Literal.ofInt?).foldl write ⟨Array.replicate nVars false⟩ := by
  rw [← in_range_literals_iff, ← foldlM_satisfy_eq_ok_iff, ofInts, allFalse_eq small]
  rfl

theorem value_ofInts (small : nVars < tableLimit) (read : ofInts nVars ints = .ok a) :
    a.size = nVars ∧ ∀ var, 0 < var → var ≤ nVars → a.value var = .ok (lastIsPositive ints var) := by
  obtain ⟨_, rfl⟩ := (ofInts_eq_ok_iff small).mp read
  have size : (⟨Array.replicate nVars false⟩ : Assignment).size = nVars := Array.size_replicate
  refine ⟨by rw [size_foldl_write, size], ?_⟩
  intro var first last
  have pos : ∀ l ∈ ints.filterMap Literal.ofInt?, 0 < l.var := by
    intro l member
    obtain ⟨i, _, literal⟩ := List.mem_filterMap.mp member
    exact (var_eq_natAbs literal).2.1
  have inside : var - 1 < nVars := by omega
  rw [value_foldl_write first (by omega) pos, filter_ofInt? first, List.getLast?_map, lastIsPositive]
  cases found : (ints.filter (·.natAbs == var)).getLast? with
  | none =>
    have back : subtract var 1 = .ok (var - 1) := subtract_eq_ok_iff.mpr ⟨first, rfl⟩
    simp [value, entry, back, inside, bind, Except.bind]
  | some i =>
    have member := List.mem_of_getLast? found
    have size : i.natAbs = var := by simpa using (List.mem_filter.mp member).2
    have sign : (!decide (i < 0)) = decide (0 < i) := by
      rw [← decide_not, decide_eq_decide]
      omega
    simp [sign]

end Numbers

end Assignment

namespace Model

def isMarked (line : List Char) : Bool := (trimmed line).head? == some 'v'

def wordsOf (line : List Char) : List (List Char) :=
  if isMarked line then words (trimmed line).tail else []

theorem marked?_eq (line : List Char) :
    marked? line = if isMarked line then some (wordsOf line) else none := by
  have start := head?_trimmed line
  rw [marked?, wordsOf, isMarked, ← words_trimmed line]
  rw [← words_trimmed line] at start
  cases whole : trimmed line with
  | nil => rfl
  | cons c cs =>
    rw [whole] at start
    have solid : isBlank c = false := by
      cases listed : words (c :: cs) with
      | nil => simp [listed] at start
      | cons word rest =>
        have member : word ∈ words (c :: cs) := by simp [listed]
        simp only [listed, List.head?_cons, Option.bind_some] at start
        exact isBlank_of_mem_words member (List.mem_of_head? start.symm)
    obtain ⟨more, rest, listed, tail⟩ := words_of_head solid cs
    rw [listed]
    by_cases mark : c = 'v'
    · subst mark
      simp [tail]
    · simp [mark]

theorem isMarked_of_marked? {line : List Char} (other : marked? line = none) : isMarked line = false := by
  rw [marked?_eq] at other
  cases marked : isMarked line with
  | false => rfl
  | true =>
    rw [if_pos marked] at other
    cases other

theorem lineInts_eq (number : Nat) (line : List Char) :
    lineInts number line = (wordsOf line).mapM fun word =>
      match int64? word with
      | some i => .ok i
      | none => .error (.invalidToken number (String.ofList word)) := by
  rw [lineInts, marked?_eq]
  cases marked : isMarked line with
  | true => rfl
  | false =>
    have none : wordsOf line = [] := by simp [wordsOf, marked]
    rw [none]
    rfl

def allWords (lines : List (List Char)) : List (List Char) := lines.flatMap wordsOf

theorem allWords_cons (line : List Char) (lines : List (List Char)) :
    allWords (line :: lines) = wordsOf line ++ allWords lines := List.flatMap_cons

section Numbers
variable {number : Nat} {line : List Char} {lines : List (List Char)} {is : List Int}

theorem lineInts_eq_ok_iff :
    lineInts number line = .ok is ↔
      (∀ word ∈ wordsOf line, (int64? word).isSome) ∧ is = (wordsOf line).filterMap int64? := by
  rw [lineInts_eq]
  refine mapM_eq_ok_iff fun word i => ?_
  cases int64? word <;> simp

theorem ints_eq_ok_iff :
    ints number (lines.map some) = .ok is ↔
      (∀ word ∈ allWords lines, (int64? word).isSome) ∧ is = (allWords lines).filterMap int64? := by
  induction lines generalizing number is with
  | nil =>
    constructor
    · intro read
      cases read
      exact ⟨nofun, rfl⟩
    · rintro ⟨_, rfl⟩
      rfl
  | cons line lines ih =>
    simp only [List.map_cons, ints, bind_eq_ok_iff, mapError_eq_ok_iff, lineInts_eq_ok_iff, ih,
      allWords_cons, List.forall_mem_append, List.filterMap_append]
    constructor
    · rintro ⟨_, ⟨here, rfl⟩, _, ⟨later, rfl⟩, made⟩
      cases made
      exact ⟨⟨here, later⟩, rfl⟩
    · rintro ⟨⟨here, later⟩, rfl⟩
      exact ⟨_, ⟨here, rfl⟩, _, ⟨later, rfl⟩, rfl⟩

-- The first word that is no number, with the lines before its own and the words before it there.
structure FirstUnread (lines before : List (List Char)) (word : List Char) : Prop where
  unread : int64? word = none
  placed : ∃ line after front back, lines = before ++ line :: after ∧
    wordsOf line = front ++ word :: back ∧ ∀ other ∈ allWords before ++ front, (int64? other).isSome

theorem first_unread_word {ws : List (List Char)} (some : ∃ word ∈ ws, int64? word = none) :
    ∃ front word back, ws = front ++ word :: back ∧ int64? word = none ∧
      ∀ other ∈ front, (int64? other).isSome := by
  obtain ⟨word, member, unread⟩ := some
  have there : (ws.find? fun word => (int64? word).isNone).isSome :=
    List.find?_isSome.mpr ⟨word, member, by simp [unread]⟩
  obtain ⟨first, found⟩ := Option.isSome_iff_exists.mp there
  obtain ⟨none, front, back, split, read⟩ := List.find?_eq_some_iff_append.mp found
  exact ⟨front, first, back, split, by simpa using none, by simpa using read⟩

-- The number of the line is counted over all lines, the word is the first of the whole text.
theorem ints_unread (some : ∃ word ∈ allWords lines, int64? word = none) :
    ∃ before word, FirstUnread lines before word ∧
      ints number (lines.map .some) =
        .error (.format (.invalidToken (number + before.length) (String.ofList word))) := by
  induction lines generalizing number with
  | nil =>
    obtain ⟨_, member, _⟩ := some
    cases member
  | cons line lines ih =>
    by_cases clean : ∀ word ∈ wordsOf line, (int64? word).isSome
    · have here : lineInts number line = .ok ((wordsOf line).filterMap int64?) :=
        lineInts_eq_ok_iff.mpr ⟨clean, rfl⟩
      have later : ∃ word ∈ allWords lines, int64? word = none := by
        obtain ⟨word, member, unread⟩ := some
        rw [allWords_cons] at member
        rcases List.mem_append.mp member with inside | rest
        · have parsed := clean word inside
          simp [unread] at parsed
        · exact ⟨word, rest, unread⟩
      obtain ⟨before, word, ⟨unread, next, after, front, back, split, parts, read⟩, failed⟩ :=
        @ih (number + 1) later
      refine ⟨line :: before, word, ⟨unread, next, after, front, back, by rw [split]; rfl, parts, ?_⟩, ?_⟩
      · intro other member
        rw [allWords_cons, List.append_assoc] at member
        rcases List.mem_append.mp member with inside | rest
        · exact clean other inside
        · exact read other rest
      · rw [List.map_cons, ints, here, failed, List.length_cons, Nat.add_right_comm, Nat.add_assoc]
        rfl
    · have inside : ∃ word ∈ wordsOf line, int64? word = none := by simpa using clean
      obtain ⟨front, word, back, parts, unread, read⟩ := first_unread_word inside
      have failed : lineInts number line = .error (.invalidToken number (String.ofList word)) := by
        rw [lineInts_eq, parts]
        refine mapM_eq_error (fun other member => ?_) (by rw [unread])
        obtain ⟨i, parsed⟩ := Option.isSome_iff_exists.mp (read other member)
        exact ⟨i, by rw [parsed]⟩
      refine ⟨[], word, ⟨unread, line, lines, front, back, rfl, parts, read⟩, ?_⟩
      rw [List.map_cons, ints, failed]
      rfl

theorem allWords_filter (lines : List (List Char)) : allWords (lines.filter isMarked) = allWords lines := by
  induction lines with
  | nil => rfl
  | cons line lines ih =>
    rw [List.filter_cons, allWords_cons]
    cases marked : isMarked line with
    | true => rw [if_pos rfl, allWords_cons, ih]
    | false => simp [wordsOf, marked, ih]

theorem lineInts_trimmed (number : Nat) {line other : List Char}
    (same : trimmed line = trimmed other) : lineInts number line = lineInts number other := by
  rw [lineInts, lineInts, marked?, marked?, ← words_trimmed line, same, words_trimmed]

end Numbers

section Texts
variable {nVars : Nat} {s : String} {a : Assignment}

theorem ofBytes_eq_ok_iff :
    ofBytes nVars s.toUTF8 = .ok a ↔ (∀ word ∈ allWords (Text.lines s), (int64? word).isSome) ∧
      Assignment.ofInts nVars ((allWords (Text.lines s)).filterMap int64?) = .ok a := by
  rw [ofBytes, byteLines_toUTF8, decodedLines, ofLines, bind_eq_ok_iff]
  simp only [ints_eq_ok_iff, and_assoc, exists_and_left, exists_eq_left]

theorem accepted_iff (small : nVars < tableLimit) :
    (∃ a, ofBytes nVars s.toUTF8 = .ok a) ↔
      ∀ word ∈ allWords (Text.lines s), ∃ i, int64? word = some i ∧ i.natAbs ≤ nVars := by
  simp only [ofBytes_eq_ok_iff, Assignment.ofInts_eq_ok_iff small, exists_and_left, exists_eq, and_true]
  constructor
  · rintro ⟨read, inside⟩ word member
    obtain ⟨i, parsed⟩ := Option.isSome_iff_exists.mp (read word member)
    exact ⟨i, parsed, inside i (List.mem_filterMap.mpr ⟨word, member, parsed⟩)⟩
  · intro all
    refine ⟨fun word member => ?_, fun i listed => ?_⟩
    · obtain ⟨i, parsed, _⟩ := all word member
      rw [parsed]
      rfl
    · obtain ⟨word, member, parsed⟩ := List.mem_filterMap.mp listed
      obtain ⟨j, same, inside⟩ := all word member
      rw [parsed, Option.some.injEq] at same
      rwa [same]

theorem refused_of_unread (some : ∃ word ∈ allWords (Text.lines s), int64? word = none) :
    ∃ before word, FirstUnread (Text.lines s) before word ∧
      ofBytes nVars s.toUTF8 =
        .error (.format (.invalidToken (before.length + 1) (String.ofList word))) := by
  obtain ⟨before, word, first, failed⟩ := @ints_unread 1 (Text.lines s) some
  refine ⟨before, word, first, ?_⟩
  rw [ofBytes, byteLines_toUTF8, decodedLines, ofLines, failed, Nat.add_comm]
  rfl

theorem printed_returns {values : List Bool} (small : values.length < tableLimit) {line : List Char}
    (only : (Text.lines s).filter isMarked = [line])
    (printed : trimmed line = trimmed (Model.line ⟨values.toArray⟩).toList) :
    ofBytes values.length s.toUTF8 = .ok ⟨values.toArray⟩ := by
  have words : allWords (Text.lines s) = wordsOf line := by
    rw [← allWords_filter, only]
    exact List.append_nil _
  have shown := (lineInts_trimmed 1 printed).trans (lineInts_line small 1)
  obtain ⟨read, numbers⟩ := lineInts_eq_ok_iff.mp shown
  rw [ofBytes_eq_ok_iff, words, ← numbers]
  exact ⟨read, Assignment.ofInts_toInts small⟩

-- The line of a model is read back from among lines of other kinds.
theorem ofBytes_among {values : List Bool} (small : values.length < tableLimit) {text : String}
    {before after : List (List Char)} (earlier : ∀ cs ∈ before, marked? cs = none)
    (later : ∀ cs ∈ after, marked? cs = none)
    (cut : lines text = before ++ (line ⟨values.toArray⟩).toList :: after) :
    ofBytes values.length text.toUTF8 = .ok ⟨values.toArray⟩ := by
  have unmarked : ∀ {ls : List (List Char)}, (∀ cs ∈ ls, marked? cs = none) → ls.filter isMarked = [] := by
    intro ls others
    refine List.filter_eq_nil_iff.mpr fun cs member => ?_
    rw [isMarked_of_marked? (others cs member)]
    exact Bool.false_ne_true
  have mark : isMarked (line ⟨values.toArray⟩).toList = true := by
    rw [isMarked, head?_trimmed, words_line]
    rfl
  refine printed_returns small ?_ rfl
  rw [cut, List.filter_append, List.filter_cons, if_pos mark, unmarked earlier, unmarked later]
  rfl

end Texts

-- What the reader does with a text: which texts it takes and what it makes of them, which word it reports
-- if some word is no number, and that it takes back what is printed, whatever else the text holds.
structure Reads (nVars : Nat) (s : String) : Prop where
  accepts : (∃ a, ofBytes nVars s.toUTF8 = .ok a) ↔
    ∀ word ∈ allWords (Text.lines s), ∃ i, int64? word = some i ∧ i.natAbs ≤ nVars
  values : ∀ a, ofBytes nVars s.toUTF8 = .ok a → a.size = nVars ∧
    ∀ var, 0 < var → var ≤ nVars → a.value var =
      .ok (Assignment.lastIsPositive ((allWords (Text.lines s)).filterMap int64?) var)
  refuses : (∃ word ∈ allWords (Text.lines s), int64? word = none) →
    ∃ before word, FirstUnread (Text.lines s) before word ∧
      ofBytes nVars s.toUTF8 =
        .error (.format (.invalidToken (before.length + 1) (String.ofList word)))
  returns : ∀ a : Assignment, a.size = nVars → ∀ line, (Text.lines s).filter isMarked = [line] →
    trimmed line = trimmed (Model.line a).toList → ofBytes nVars s.toUTF8 = .ok a

theorem last_number_of_variable_decides {nVars : Nat} (small : nVars < tableLimit) (s : String) :
    Reads nVars s where
  accepts := accepted_iff small
  values a read := Assignment.value_ofInts small (ofBytes_eq_ok_iff.mp read).2
  refuses := refused_of_unread
  returns := by
    rintro ⟨⟨values⟩⟩ rfl line only printed
    exact printed_returns small only printed

-- The mark may touch the first number, variable 2 is named three times, and a comment is passed over.
theorem last_number_of_variable_decides_repeated :
    let text := "c v 9\nv 1 -2 0\ns SATISFIED\r\n\t v-1 +2 0 3 0 -3 2\n"
    3 < tableLimit ∧ ofBytes 3 text.toUTF8 = .ok ⟨#[false, true, false]⟩ ∧ Reads 3 text := by
  intro text
  have small : 3 < tableLimit := by decide
  exact ⟨small, toOption_eq_some_iff.mp (by decide +kernel), last_number_of_variable_decides small text⟩

end Model

end WeightedCnf
