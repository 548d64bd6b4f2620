import WeightedCnf.Text.Blank

namespace WeightedCnf.Text

section Pieces
variable {isEnd : α → Bool} {xs : List α} {x : α}

def closedPieces (isEnd : α → Bool) (xs : List α) : List (List α) := (xs.splitOnP isEnd).dropLast

def openPiece (isEnd : α → Bool) (xs : List α) : List α := (xs.splitOnP isEnd).getLast?.getD []

theorem pieces_of_splitOnP {closed : List (List α)} {last : List α}
    (parts : xs.splitOnP isEnd = closed ++ [last]) :
    closedPieces isEnd xs = closed ∧ openPiece isEnd xs = last := by
  simp [closedPieces, openPiece, parts]

theorem last_mark (isEnd : α → Bool) (xs : List α) :
    (∀ x ∈ xs, isEnd x = false) ∨
      ∃ front mark last, isEnd mark = true ∧ (∀ x ∈ last, isEnd x = false) ∧
        xs = front ++ mark :: last := by
  induction xs with
  | nil => exact .inl nofun
  | cons x xs ih =>
    rcases ih with none | ⟨front, mark, last, ends, inside, rfl⟩
    · cases ends : isEnd x with
      | true => exact .inr ⟨[], x, xs, ends, none, rfl⟩
      | false => exact .inl (List.forall_mem_cons.mpr ⟨ends, none⟩)
    · exact .inr ⟨x :: front, mark, last, ends, inside, rfl⟩

-- The pieces of a sequence, and what becomes of them when one element more comes.
theorem pieces_grow (isEnd : α → Bool) (xs : List α) :
    xs.splitOnP isEnd = closedPieces isEnd xs ++ [openPiece isEnd xs] ∧
      ∀ x, isEnd x = false →
        (xs ++ [x]).splitOnP isEnd = closedPieces isEnd xs ++ [openPiece isEnd xs ++ [x]] := by
  rcases last_mark isEnd xs with none | ⟨front, mark, last, ends, inside, rfl⟩
  · have whole : xs.splitOnP isEnd = [] ++ [xs] := List.splitOnP_eq_singleton none
    obtain ⟨closed, opened⟩ := pieces_of_splitOnP whole
    rw [closed, opened]
    refine ⟨whole, ?_⟩
    intro x inside
    apply List.splitOnP_eq_singleton
    exact List.forall_mem_append.mpr ⟨none, by simpa using inside⟩
  · have parts : (front ++ mark :: last).splitOnP isEnd = front.splitOnP isEnd ++ [last] := by
      rw [List.splitOnP_append_cons front last ends, List.splitOnP_eq_singleton inside]
    obtain ⟨closed, opened⟩ := pieces_of_splitOnP parts
    rw [closed, opened]
    refine ⟨parts, ?_⟩
    intro x free
    rw [List.append_assoc, List.cons_append, List.splitOnP_append_cons front _ ends]
    congr 1
    apply List.splitOnP_eq_singleton
    exact List.forall_mem_append.mpr ⟨inside, by simpa using free⟩

theorem splitOnP_eq_pieces (isEnd : α → Bool) (xs : List α) :
    xs.splitOnP isEnd = closedPieces isEnd xs ++ [openPiece isEnd xs] :=
  (pieces_grow isEnd xs).1

theorem isEnd_of_mem_splitOnP {piece : List α} (member : piece ∈ xs.splitOnP isEnd) (inside : x ∈ piece) :
    isEnd x = false := by
  induction xs generalizing piece with
  | nil =>
    rw [List.splitOnP_nil, List.mem_singleton] at member
    rw [member] at inside
    cases inside
  | cons y xs ih =>
    obtain ⟨first, rest, parts⟩ := List.exists_cons_of_ne_nil (List.splitOnP_ne_nil isEnd xs)
    rw [List.splitOnP_cons_eq_if_modifyHead, parts] at member
    rw [parts] at ih
    split at member
    · rcases List.mem_cons.mp member with rfl | later
      · cases inside
      · exact ih later inside
    · rename_i free
      rcases List.mem_cons.mp member with rfl | later
      · rcases List.mem_cons.mp inside with rfl | kept
        · exact Bool.eq_false_iff.mpr free
        · exact ih (by simp) kept
      · exact ih (List.mem_cons_of_mem _ later) inside

theorem isEnd_of_mem_openPiece (member : x ∈ openPiece isEnd xs) : isEnd x = false := by
  have last : openPiece isEnd xs ∈ xs.splitOnP isEnd := by simp [splitOnP_eq_pieces]
  exact isEnd_of_mem_splitOnP last member

theorem pieces_append_inside (inside : isEnd x = false) :
    closedPieces isEnd (xs ++ [x]) = closedPieces isEnd xs ∧
      openPiece isEnd (xs ++ [x]) = openPiece isEnd xs ++ [x] :=
  pieces_of_splitOnP ((pieces_grow isEnd xs).2 x inside)

theorem pieces_append_mark (ends : isEnd x = true) :
    closedPieces isEnd (xs ++ [x]) = closedPieces isEnd xs ++ [openPiece isEnd xs] ∧
      openPiece isEnd (xs ++ [x]) = [] := by
  apply pieces_of_splitOnP
  rw [List.splitOnP_append_cons xs [] ends, List.splitOnP_nil, splitOnP_eq_pieces]

end Pieces

def trimmed (cs : List Char) : List Char := ((cs.dropWhile isBlank).reverse.dropWhile isBlank).reverse

theorem words_dropWhile (cs : List Char) : words (cs.dropWhile isBlank) = words cs := by
  induction cs with
  | nil => rfl
  | cons c cs ih =>
    rw [List.dropWhile_cons]
    split
    · rename_i blank
      exact ih.trans (words_append_cons blank [] cs).symm
    · rfl

theorem isBlank_of_mem_words {cs word : List Char} {c : Char} (member : word ∈ words cs)
    (inside : c ∈ word) : isBlank c = false :=
  isEnd_of_mem_splitOnP (List.mem_filter.mp member).1 inside

theorem words_reverse_dropWhile (cs : List Char) :
    words (cs.dropWhile isBlank).reverse = words cs.reverse := by
  induction cs with
  | nil => rfl
  | cons c cs ih =>
    rw [List.dropWhile_cons]
    split
    · rename_i blank
      rw [ih, List.reverse_cons, words_append_cons blank, words_nil, List.append_nil]
    · rfl

theorem words_trimmed (cs : List Char) : words (trimmed cs) = words cs := by
  rw [trimmed, words_reverse_dropWhile, List.reverse_reverse, words_dropWhile]

theorem getLast?_dropWhile {p : α → Bool} {xs : List α} {x : α} (kept : p x = false) :
    ((xs ++ [x]).dropWhile p).getLast? = some x := by
  rw [List.dropWhile_append]
  split
  · simp [kept]
  · simp

-- A line that begins with no blank begins with its first word.
theorem words_of_head {c : Char} (solid : isBlank c = false) (cs : List Char) :
    ∃ more rest, words (c :: cs) = (c :: more) :: rest ∧
      words cs = if more.isEmpty then rest else more :: rest := by
  obtain ⟨more, pieces, parts⟩ := List.exists_cons_of_ne_nil (List.splitOnP_ne_nil isBlank cs)
  refine ⟨more, pieces.filter (!·.isEmpty), ?_, ?_⟩
  · rw [words, List.splitOnP_cons_eq_if_modifyHead, if_neg (by simp [solid]), parts]
    rfl
  · rw [words, parts, List.filter_cons]
    cases more <;> rfl

theorem head?_trimmed (cs : List Char) : (trimmed cs).head? = (words cs).head?.bind List.head? := by
  rw [trimmed, List.head?_reverse, ← words_dropWhile]
  cases rest : cs.dropWhile isBlank with
  | nil => rfl
  | cons c left =>
    have solid : isBlank c = false := by
      have head := List.head?_dropWhile_not isBlank cs
      rw [rest] at head
      exact head
    obtain ⟨more, later, listed, _⟩ := words_of_head solid left
    rw [List.reverse_cons, getLast?_dropWhile solid, listed]
    rfl

end WeightedCnf.Text
