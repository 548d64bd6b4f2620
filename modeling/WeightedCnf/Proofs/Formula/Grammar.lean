import WeightedCnf.Proofs.Formula.Reading
import WeightedCnf.Proofs.Formula.RoundTrip
import WeightedCnf.Proofs.Text.Pieces

namespace WeightedCnf.Formula
open Text

inductive Role where
  | header
  | weights
  | literals
deriving DecidableEq, Repr

-- A line without its outer blanks is dropped if it is empty or a comment; its first character tells what
-- it is for otherwise.
def role? (line : List Char) : Option Role :=
  match (trimmed line).head? with
  | none => none
  | some 'c' => none
  | some '%' => none
  | some 'p' => some .header
  | some 'w' => some .weights
  | some _ => some .literals

def withRole (role : Role) (lines : List (List Char)) : List (List Char) :=
  lines.filter fun line => role? line == some role

def declaredIn (line : List Char) : Option Nat := (words line)[2]?.bind nat64?

def lastCount? (lines : List (List Char)) : Option Nat :=
  (withRole .header lines).getLast?.bind declaredIn

def weightWords (line : List Char) : List (List Char) := (words line).tail.dropLast

def listedWeights (lines : List (List Char)) : List Nat :=
  ((withRole .weights lines).flatMap weightWords).filterMap nat64?

def literalNumbers (lines : List (List Char)) : List Int :=
  ((withRole .literals lines).flatMap words).filterMap int64?

def groups (ints : List Int) : List (List Int) := (ints.splitOnP (· == 0)).filter (!·.isEmpty)

structure Acceptable (lines : List (List Char)) : Prop where
  declared : withRole .header lines ≠ []
  counted : ∀ line ∈ withRole .header lines, (declaredIn line).isSome
  preceded : ∀ before line after, lines = before ++ line :: after → role? line = some .literals →
    withRole .header before ≠ []
  weighed : ∃ line, withRole .weights lines = [line] ∧ ∀ word ∈ weightWords line, (nat64? word).isSome
  ranged : ∀ before line after, lines = before ++ line :: after → role? line = some .literals →
    ∀ word ∈ words line, ∃ i count, int64? word = some i ∧ lastCount? before = some count ∧
      i.natAbs ≤ count
  arity : lastCount? lines = some (listedWeights lines).length
  bounded : (total (listedWeights lines) + 1) * ((groups (literalNumbers lines)).length + 1) ≤ maxScore

section Roles
variable {line : List Char} {role : Role}

theorem words_ne_nil (known : role? line = some role) : words line ≠ [] := by
  intro empty
  simp [role?, head?_trimmed, empty] at known

theorem ofChars_eq (line : List Char) :
    Line.ofChars line =
      match role? line with
      | none => .skip
      | some .header => .header (words line).tail
      | some .weights => .weights (words line).tail
      | some .literals => .literals (words line) := by
  have start := head?_trimmed line
  have solid : ∀ word ∈ words line, word ≠ [] := by
    intro word member
    simpa using (List.mem_filter.mp member).2
  rw [role?, start, Line.ofChars]
  cases listed : words line with
  | nil => rfl
  | cons first rest =>
    have nonempty := solid first (by simp [listed])
    obtain ⟨c, more, rfl⟩ := List.exists_cons_of_ne_nil nonempty
    simp only [List.head?_cons, Option.bind_some, List.tail_cons]
    split <;> simp_all

theorem withRole_append (role : Role) (lines more : List (List Char)) :
    withRole role (lines ++ more) = withRole role lines ++ withRole role more := List.filter_append ..

theorem withRole_singleton (role : Role) (line : List Char) :
    withRole role [line] = if role? line = some role then [line] else [] := by
  simp [withRole, List.filter_cons]

theorem withRole_cons_of_role (known : role? line = some role) (lines : List (List Char)) :
    withRole role (line :: lines) = line :: withRole role lines := by
  simp [withRole, known]

theorem mem_withRole {lines : List (List Char)} :
    line ∈ withRole role lines ↔ line ∈ lines ∧ role? line = some role := by
  simp [withRole]

end Roles

section NextLine
variable {lines : List (List Char)} {line : List Char}

theorem header_of_lastCount? {count : Nat} (nearest : lastCount? lines = some count) :
    withRole .header lines ≠ [] := by
  intro none
  simp [lastCount?, none] at nearest

theorem lastCount?_append (lines : List (List Char)) (line : List Char) :
    lastCount? (lines ++ [line]) =
      if role? line = some .header then declaredIn line else lastCount? lines := by
  rw [lastCount?, withRole_append, withRole_singleton]
  split
  · simp
  · simp [lastCount?]

theorem listedWeights_append (lines : List (List Char)) (line : List Char) :
    listedWeights (lines ++ [line]) = listedWeights lines ++
      if role? line = some .weights then (weightWords line).filterMap nat64? else [] := by
  rw [listedWeights, withRole_append, withRole_singleton]
  split <;> simp [listedWeights]

theorem literalNumbers_append (lines : List (List Char)) (line : List Char) :
    literalNumbers (lines ++ [line]) = literalNumbers lines ++
      if role? line = some .literals then (words line).filterMap int64? else [] := by
  rw [literalNumbers, withRole_append, withRole_singleton]
  split <;> simp [literalNumbers]

end NextLine

def clausesOf (pieces : List (List Int)) : List Clause :=
  (pieces.filter (!·.isEmpty)).map Clause.ofInts

theorem clausesOf_append (pieces : List (List Int)) (piece : List Int) :
    clausesOf (pieces ++ [piece]) =
      clausesOf pieces ++ if piece.isEmpty then [] else [Clause.ofInts piece] := by
  cases piece <;> simp [clausesOf]

theorem filterMap_ofInt?_eq_nil {ints : List Int} (nonzero : ∀ i ∈ ints, (i == 0) = false) :
    ints.filterMap Literal.ofInt? = [] ↔ ints = [] := by
  cases ints with
  | nil => simp
  | cons i ints =>
    have first : i ≠ 0 := by simpa using nonzero i (by simp)
    simp [Literal.ofInt?, first]

namespace Draft

def ofNumbers (declared : Option Nat) (weights : Option (List Nat)) (ints : List Int) : Draft :=
  ⟨declared, weights, (clausesOf (closedPieces (· == 0) ints)).toArray,
    ((openPiece (· == 0) ints).filterMap Literal.ofInt?).toArray⟩

section Numbers
variable {declared : Option Nat} {weights : Option (List Nat)} {ints : List Int} {number nVars : Nat}
  {d : Draft}

@[simp] theorem ofNumbers_declared : (ofNumbers declared weights ints).declared = declared := rfl

theorem close_ofNumbers :
    (ofNumbers declared weights ints).close =
      ⟨declared, weights, (clausesOf (ints.splitOnP (· == 0))).toArray, #[]⟩ := by
  have nonzero : ∀ i ∈ openPiece (· == 0) ints, (i == 0) = false :=
    fun i member => @isEnd_of_mem_openPiece _ (· == 0) ints i member
  have nothing := filterMap_ofInt?_eq_nil nonzero
  rw [splitOnP_eq_pieces, clausesOf_append]
  by_cases empty : openPiece (· == 0) ints = []
  · simp [close, ofNumbers, empty]
  · have pending := mt nothing.mp empty
    simp [close, ofNumbers, pending, empty, Clause.ofInts]

-- A zero ends the open clause, any other number adds a literal to it.
theorem ofNumbers_append_zero :
    ofNumbers declared weights (ints ++ [0]) = (ofNumbers declared weights ints).close := by
  obtain ⟨closed, opened⟩ := @pieces_append_mark _ (· == 0) ints (0 : Int) rfl
  rw [close_ofNumbers, splitOnP_eq_pieces, ofNumbers, closed, opened]
  rfl

theorem ofNumbers_append_literal {i : Int} {l : Literal} (literal : Literal.ofInt? i = some l) :
    ofNumbers declared weights (ints ++ [i]) =
      { ofNumbers declared weights ints with
        pending := (ofNumbers declared weights ints).pending.push l } := by
  have nonzero : (i == 0) = false := by
    cases zero : i == 0 with
    | false => rfl
    | true => simp [Literal.ofInt?, beq_iff_eq.mp zero] at literal
  obtain ⟨closed, opened⟩ := @pieces_append_inside _ (· == 0) ints i nonzero
  simp [ofNumbers, closed, opened, literal]

theorem token_ofNumbers_iff {word : List Char} :
    token number nVars (ofNumbers declared weights ints) word = .ok d ↔
      ∃ i, int64? word = some i ∧ i.natAbs ≤ nVars ∧ d = ofNumbers declared weights (ints ++ [i]) := by
  unfold token
  cases parsed : int64? word with
  | none => simp
  | some i =>
    simp only [Option.some.injEq, exists_eq_left']
    by_cases zero : i = 0
    · subst zero
      simp [Literal.ofInt?, ofNumbers_append_zero, eq_comm]
    · have literal : Literal.ofInt? i = some ⟨i.natAbs, decide (i < 0)⟩ := by
        simp [Literal.ofInt?, zero]
      rw [ofNumbers_append_literal literal]
      simp only [literal]
      split
      · rename_i outside
        simp [Nat.not_le.mpr outside]
      · rename_i inside
        simp [Nat.not_lt.mp inside, eq_comm]

theorem foldlM_token_ofNumbers_iff {tokens : List (List Char)} :
    tokens.foldlM (token number nVars) (ofNumbers declared weights ints) = .ok d ↔
      (∀ word ∈ tokens, ∃ i, int64? word = some i ∧ i.natAbs ≤ nVars) ∧
        d = ofNumbers declared weights (ints ++ tokens.filterMap int64?) := by
  induction tokens generalizing ints with
  | nil => simp [pure, Except.pure, eq_comm]
  | cons word tokens ih =>
    rw [List.foldlM_cons, bind_eq_ok_iff, List.forall_mem_cons]
    constructor
    · rintro ⟨between, first, rest⟩
      obtain ⟨i, parsed, inside, rfl⟩ := token_ofNumbers_iff.mp first
      obtain ⟨insides, equal⟩ := ih.mp rest
      refine ⟨⟨⟨i, parsed, inside⟩, insides⟩, ?_⟩
      rw [equal, List.filterMap_cons_some parsed, List.append_assoc, List.singleton_append]
    · rintro ⟨⟨⟨i, parsed, inside⟩, insides⟩, equal⟩
      refine ⟨_, token_ofNumbers_iff.mpr ⟨i, parsed, inside, rfl⟩, ih.mpr ⟨insides, ?_⟩⟩
      rw [equal, List.filterMap_cons_some parsed, List.append_assoc, List.singleton_append]

end Numbers

theorem readWeights_eq_ok_iff {number : Nat} {rest : List (List Char)} {ws : List Nat} :
    readWeights number rest = .ok ws ↔
      (∀ word ∈ rest.dropLast, (nat64? word).isSome) ∧ ws = rest.dropLast.filterMap nat64? := by
  refine mapM_eq_ok_iff fun word w => ?_
  cases nat64? word <;> simp

theorem finish_close (d : Draft) : d.close.finish = d.finish := by
  have again : d.close.close = d.close := if_pos (by simp [d.pending_close])
  simp only [finish, again]

end Draft

def weights? (lines : List (List Char)) : Option (List Nat) :=
  if withRole .weights lines = [] then none else some (listedWeights lines)

def draftOf (lines : List (List Char)) : Draft :=
  .ofNumbers (lastCount? lines) (weights? lines) (literalNumbers lines)

def Fits (before : List (List Char)) (line : List Char) : Prop :=
  match role? line with
  | none => True
  | some .header => (declaredIn line).isSome
  | some .weights => withRole .weights before = [] ∧ ∀ word ∈ weightWords line, (nat64? word).isSome
  | some .literals => ∃ count, lastCount? before = some count ∧
      ∀ word ∈ words line, ∃ i, int64? word = some i ∧ i.natAbs ≤ count

def Orderly (seen lines : List (List Char)) : Prop :=
  ∀ before line after, lines = before ++ line :: after → Fits (seen ++ before) line

section Draft
variable {seen lines : List (List Char)} {line : List Char} {number : Nat} {d : Draft} {f : Formula}

theorem draftOf_append (lines : List (List Char)) (line : List Char) :
    draftOf (lines ++ [line]) =
      match role? line with
      | none => draftOf lines
      | some .header => { draftOf lines with declared := declaredIn line }
      | some .weights => { draftOf lines with
          weights := some (listedWeights lines ++ (weightWords line).filterMap nat64?) }
      | some .literals => .ofNumbers (lastCount? lines) (weights? lines)
          (literalNumbers lines ++ (words line).filterMap int64?) := by
  simp only [draftOf, weights?, lastCount?_append, listedWeights_append, literalNumbers_append,
    withRole_append, withRole_singleton]
  cases role? line with
  | none => simp
  | some role => cases role <;> simp [Draft.ofNumbers]

theorem line_draftOf_iff :
    (draftOf seen).line number line = .ok d ↔ Fits seen line ∧ d = draftOf (seen ++ [line]) := by
  rw [Draft.line, ofChars_eq, draftOf_append, Fits]
  cases role? line with
  | none => simp [eq_comm]
  | some role =>
    cases role with
    | header =>
      have same : Line.count? (words line).tail = declaredIn line := by
        simp [Line.count?, declaredIn]
      simp only [same]
      cases declaredIn line <;> simp [eq_comm]
    | weights =>
      by_cases first : withRole .weights seen = []
      · have none : (draftOf seen).weights = none := if_pos first
        have nothing : listedWeights seen = [] := by rw [listedWeights, first]; rfl
        simp only [none, nothing, first, true_and, List.nil_append]
        constructor
        · intro read
          obtain ⟨ws, entries, made⟩ := bind_eq_ok_iff.mp read
          obtain ⟨numeric, rfl⟩ := Draft.readWeights_eq_ok_iff.mp entries
          cases made
          exact ⟨numeric, rfl⟩
        · rintro ⟨numeric, rfl⟩
          exact bind_eq_ok_iff.mpr ⟨_, Draft.readWeights_eq_ok_iff.mpr ⟨numeric, rfl⟩, rfl⟩
      · have some : (draftOf seen).weights = some (listedWeights seen) := if_neg first
        simp [some, first]
    | literals =>
      simp only [draftOf, Draft.ofNumbers_declared]
      cases lastCount? seen with
      | none => simp
      | some count =>
        simp only [Option.some.injEq, exists_eq_left']
        exact Draft.foldlM_token_ofNumbers_iff

theorem orderly_cons :
    Orderly seen (line :: lines) ↔ Fits seen line ∧ Orderly (seen ++ [line]) lines := by
  constructor
  · intro orderly
    constructor
    · simpa using orderly [] line lines rfl
    · rintro before next after rfl
      simpa using orderly (line :: before) next after rfl
  · rintro ⟨fits, orderly⟩ before next after split
    rcases List.cons_eq_append_iff.mp split with ⟨rfl, same⟩ | ⟨more, rfl, rest⟩
    · cases same
      simpa using fits
    · simpa using orderly more next after rest

-- The reader follows the draft of the lines it has taken, and stops at the first line that does not fit.
theorem lines_draftOf_iff :
    (draftOf seen).lines number (lines.map some) = .ok d ↔
      Orderly seen lines ∧ d = draftOf (seen ++ lines) := by
  induction lines generalizing seen number with
  | nil =>
    have orderly : Orderly seen [] := by simp [Orderly]
    simp [Draft.lines, orderly, eq_comm]
  | cons line lines ih =>
    rw [List.map_cons, Draft.lines, orderly_cons]
    constructor
    · intro read
      split at read
      · cases read
      · rename_i between taken
        obtain ⟨fits, rfl⟩ := line_draftOf_iff.mp taken
        obtain ⟨orderly, rfl⟩ := ih.mp read
        exact ⟨⟨fits, orderly⟩, by simp⟩
    · rintro ⟨⟨fits, orderly⟩, rfl⟩
      rw [line_draftOf_iff.mpr ⟨fits, rfl⟩]
      exact ih.mpr ⟨orderly, by simp⟩

def formulaOf (lines : List (List Char)) : Formula :=
  ofParts (listedWeights lines).length (listedWeights lines)
    ((groups (literalNumbers lines)).map Clause.ofInts)

theorem finish_draftOf_iff :
    (draftOf lines).finish = .ok f ↔
      withRole .weights lines ≠ [] ∧ lastCount? lines = some (listedWeights lines).length ∧
        (total (listedWeights lines) + 1) * ((groups (literalNumbers lines)).length + 1) ≤ maxScore ∧
        f = formulaOf lines := by
  rw [← Draft.finish_close, draftOf, Draft.close_ofNumbers]
  cases header : lastCount? lines with
  | none => simp [Draft.finish, Draft.close]
  | some count =>
    by_cases absent : withRole .weights lines = []
    · simp [Draft.finish, Draft.close, weights?, absent]
    · have listed : weights? lines = some (listedWeights lines) := if_neg absent
      rw [Draft.finish_eq_ok_iff rfl rfl listed]
      simp only [clausesOf, List.size_toArray, List.length_map, Option.some.injEq, absent, ne_eq,
        not_false_eq_true, true_and]
      constructor
      · rintro ⟨rfl, bound, rfl⟩
        exact ⟨rfl, bound, rfl⟩
      · rintro ⟨rfl, bound, rfl⟩
        exact ⟨rfl, bound, rfl⟩

theorem Orderly.fits_of_mem (orderly : Orderly [] lines) (member : line ∈ lines) :
    ∃ before, Fits before line := by
  obtain ⟨before, after, split⟩ := List.append_of_mem member
  exact ⟨before, orderly before line after split⟩

theorem Orderly.single_weights (orderly : Orderly [] lines) {rest : List (List Char)}
    (listed : withRole .weights lines = line :: rest) : rest = [] := by
  obtain ⟨before, behind, rfl, _, first, later⟩ := List.filter_eq_cons_iff.mp listed
  cases rest with
  | nil => rfl
  | cons second rest =>
    obtain ⟨between, after, rfl, _, again, _⟩ := List.filter_eq_cons_iff.mp later
    have fits := orderly (before ++ line :: between) second after (by simp)
    simp only [Fits, beq_iff_eq.mp again, List.nil_append] at fits
    have member : line ∈ withRole .weights (before ++ line :: between) :=
      mem_withRole.mpr ⟨by simp, beq_iff_eq.mp first⟩
    rw [fits.1] at member
    cases member

theorem Acceptable.fits (ok : Acceptable lines) {before after : List (List Char)}
    (split : lines = before ++ line :: after) : Fits before line := by
  have member : line ∈ lines := by simp [split]
  rw [Fits]
  cases known : role? line with
  | none => trivial
  | some role =>
    cases role with
    | header => exact ok.counted line (mem_withRole.mpr ⟨member, known⟩)
    | weights =>
      obtain ⟨only, single, numeric⟩ := ok.weighed
      rw [split, withRole_append, withRole_cons_of_role known] at single
      rcases List.append_eq_singleton_iff.mp single with ⟨first, same⟩ | ⟨_, nothing⟩
      · obtain ⟨rfl, _⟩ := List.cons.inj same
        exact ⟨first, numeric⟩
      · cases nothing
    | literals =>
      have counted := ok.ranged before line after split known
      obtain ⟨word, _, listed⟩ := List.exists_cons_of_ne_nil (words_ne_nil known)
      obtain ⟨_, count, _, header, _⟩ := counted word (by simp [listed])
      refine ⟨count, header, ?_⟩
      intro other inside
      obtain ⟨i, same, parsed, nearest, small⟩ := counted other inside
      rw [header] at nearest
      cases nearest
      exact ⟨i, parsed, small⟩

theorem Orderly.acceptable (orderly : Orderly [] lines) (listed : withRole .weights lines ≠ [])
    (arity : lastCount? lines = some (listedWeights lines).length)
    (bounded : (total (listedWeights lines) + 1) * ((groups (literalNumbers lines)).length + 1) ≤
      maxScore) : Acceptable lines := by
  have literals : ∀ before line after, lines = before ++ line :: after → role? line = some .literals →
      ∃ count, lastCount? before = some count ∧
        ∀ word ∈ words line, ∃ i, int64? word = some i ∧ i.natAbs ≤ count := by
    intro before line after split known
    have fits := orderly before line after split
    simpa only [Fits, known, List.nil_append] using fits
  refine ⟨header_of_lastCount? arity, ?_, ?_, ?_, ?_, arity, bounded⟩
  · intro line member
    obtain ⟨inside, known⟩ := mem_withRole.mp member
    obtain ⟨before, fits⟩ := orderly.fits_of_mem inside
    simpa only [Fits, known] using fits
  · intro before line after split known
    obtain ⟨count, header, _⟩ := literals before line after split known
    exact header_of_lastCount? header
  · obtain ⟨line, rest, first⟩ := List.exists_cons_of_ne_nil listed
    have only := orderly.single_weights first
    subst only
    obtain ⟨inside, known⟩ := mem_withRole.mp (first ▸ List.mem_singleton_self line)
    obtain ⟨before, fits⟩ := orderly.fits_of_mem inside
    simp only [Fits, known] at fits
    exact ⟨line, first, fits.2⟩
  · intro before line after split known word inside
    obtain ⟨count, header, ranged⟩ := literals before line after split known
    obtain ⟨i, parsed, small⟩ := ranged word inside
    exact ⟨i, count, parsed, header, small⟩

theorem ofLines_eq_ok_iff :
    ofLines (lines.map some) = .ok f ↔ Acceptable lines ∧ f = formulaOf lines := by
  have start : draftOf [] = Draft.empty := rfl
  rw [ofLines, bind_eq_ok_iff, ← start]
  constructor
  · rintro ⟨d, read, finished⟩
    obtain ⟨orderly, rfl⟩ := lines_draftOf_iff.mp read
    obtain ⟨listed, arity, bounded, rfl⟩ := finish_draftOf_iff.mp (mapError_eq_ok_iff.mp finished)
    exact ⟨orderly.acceptable listed arity bounded, rfl⟩
  · rintro ⟨ok, rfl⟩
    obtain ⟨line, single, _⟩ := ok.weighed
    refine ⟨_, lines_draftOf_iff.mpr ⟨fun _ _ _ => ok.fits, rfl⟩, mapError_eq_ok_iff.mpr ?_⟩
    exact finish_draftOf_iff.mpr ⟨by simp [single], ok.arity, ok.bounded, rfl⟩

end Draft

-- A text is read exactly if its lines are those of a formula, and the formula has the count of the last
-- header, the weights that are listed and the clauses between the zeros.
theorem reader_accepts_exactly_the_grammar (s : String) :
    ((∃ f, ofBytes s.toUTF8 = .ok f) ↔ Acceptable (Text.lines s)) ∧
      ∀ f, ofBytes s.toUTF8 = .ok f →
        lastCount? (Text.lines s) = some f.nVars ∧
          f.weights.toList = 0 :: listedWeights (Text.lines s) ∧
          f.clauses = (groups (literalNumbers (Text.lines s))).map Clause.ofInts := by
  have read : ∀ f, ofBytes s.toUTF8 = .ok f ↔
      Acceptable (Text.lines s) ∧ f = formulaOf (Text.lines s) := by
    intro f
    rw [ofBytes, byteLines_toUTF8, decodedLines]
    exact ofLines_eq_ok_iff
  constructor
  · simp only [read, exists_and_left, exists_eq, and_true]
  · intro f made
    obtain ⟨ok, rfl⟩ := (read f).mp made
    exact ⟨ok.arity, by simp [formulaOf, ofParts], rfl⟩

-- The first clause goes over two lines, each under a header of its own, and repeats a literal; the last
-- one is not ended. The weights stand before all headers.
theorem reader_accepts_exactly_the_grammar_layout :
    let text := "w 3 4 5 0\r\nc note\n\np cnf 2 2\n 1 -2\np cnf 3 2\n1 0 0\t-3\n%\n"
    let f := ofParts 3 [3, 4, 5] [⟨[.positive 1, .negative 2]⟩, ⟨[.negative 3]⟩]
    ofBytes text.toUTF8 = .ok f ∧ Acceptable (Text.lines text) ∧
      lastCount? (Text.lines text) = some f.nVars ∧
      f.weights.toList = 0 :: listedWeights (Text.lines text) ∧
      f.clauses = (groups (literalNumbers (Text.lines text))).map Clause.ofInts := by
  intro text f
  have read : ofBytes text.toUTF8 = .ok f := toOption_eq_some_iff.mp (by decide +kernel)
  have spec := reader_accepts_exactly_the_grammar text
  exact ⟨read, spec.1.mp ⟨f, read⟩, spec.2 f read⟩

end WeightedCnf.Formula
