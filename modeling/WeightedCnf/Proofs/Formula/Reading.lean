import WeightedCnf.Formula.Reader
import WeightedCnf.Proofs.Occurrences

namespace WeightedCnf.Formula

def Line.counts : Line → List Nat
  | .header rest => (Line.count? rest).toList
  | _ => []

def Line.mentioned : Line → List Literal
  | .literals tokens => tokens.filterMap fun word => (Text.int64? word).bind Literal.ofInt?
  | _ => []

def counts (lines : List (Option (List Char))) : List Nat :=
  (lines.filterMap id).flatMap fun cs => (Line.ofChars cs).counts

def mentioned (lines : List (Option (List Char))) : List Literal :=
  (lines.filterMap id).flatMap fun cs => (Line.ofChars cs).mentioned

theorem counts_append_singleton (lines : List (Option (List Char))) (cs : List Char) :
    counts (lines ++ [some cs]) = counts lines ++ (Line.ofChars cs).counts := by
  simp [counts]

theorem mentioned_append_singleton (lines : List (Option (List Char))) (cs : List Char) :
    mentioned (lines ++ [some cs]) = mentioned lines ++ (Line.ofChars cs).mentioned := by
  simp [mentioned]

theorem var_pos_of_ofInt? {i : Int} {l : Literal} (literal : Literal.ofInt? i = some l) : 0 < l.var := by
  unfold Literal.ofInt? at literal
  split at literal
  · cases literal
  · rename_i nonzero
    cases literal
    exact Int.natAbs_pos.mpr nonzero

def Proper (c : Clause) : Prop := c.literals ≠ [] ∧ c.literals.Nodup

theorem proper_ofLiterals {ls : List Literal} (some : ls ≠ []) : Proper (.ofLiterals ls) := by
  refine ⟨?_, Clause.nodup_ofLiterals ls⟩
  intro empty
  obtain ⟨l, member⟩ := List.exists_mem_of_ne_nil ls some
  have kept := Clause.mem_ofLiterals.mpr member
  rw [empty] at kept
  cases kept

namespace Draft
variable {d d' : Draft} {number nVars : Nat} {ls : List Literal}

def Holds (d : Draft) (l : Literal) : Prop := (∃ c ∈ d.clauses, l ∈ c.literals) ∨ l ∈ d.pending

structure Takes (nVars : Nat) (ls : List Literal) (d d' : Draft) : Prop where
  declared : d'.declared = d.declared
  weights : d'.weights = d.weights
  holds : ∀ l, d'.Holds l ↔ d.Holds l ∨ l ∈ ls
  ranged : ∀ l ∈ ls, 0 < l.var ∧ l.var ≤ nVars
  proper : (∀ c ∈ d.clauses, Proper c) → ∀ c ∈ d'.clauses, Proper c

theorem Takes.refl (nVars : Nat) (d : Draft) : Takes nVars [] d d :=
  ⟨rfl, rfl, by simp, by simp, id⟩

theorem Takes.trans {more : List Literal} {d'' : Draft} (first : Takes nVars ls d d')
    (second : Takes nVars more d' d'') : Takes nVars (ls ++ more) d d'' := by
  refine ⟨second.declared.trans first.declared, second.weights.trans first.weights, ?_, ?_, ?_⟩
  · intro l
    rw [second.holds, first.holds, List.mem_append, or_assoc]
  · intro l member
    rcases List.mem_append.mp member with before | after
    · exact first.ranged l before
    · exact second.ranged l after
  · intro proper
    exact second.proper (first.proper proper)

theorem close_takes (nVars : Nat) (d : Draft) : Takes nVars [] d d.close := by
  unfold close
  split
  · exact Takes.refl nVars d
  · rename_i unclosed
    have some : d.pending.toList ≠ [] := by simpa using unclosed
    refine ⟨rfl, rfl, ?_, by simp, ?_⟩
    · intro l
      simp only [Holds, Array.mem_push, List.not_mem_nil, or_false, Array.not_mem_empty]
      constructor
      · rintro ⟨c, before | rfl, member⟩
        · exact .inl ⟨c, before, member⟩
        · exact .inr (Array.mem_toList_iff.mp (Clause.mem_ofLiterals.mp member))
      · rintro (⟨c, before, member⟩ | pending)
        · exact ⟨c, .inl before, member⟩
        · exact ⟨_, .inr rfl, Clause.mem_ofLiterals.mpr (Array.mem_toList_iff.mpr pending)⟩
    · intro proper c member
      rcases Array.mem_push.mp member with before | rfl
      · exact proper c before
      · exact proper_ofLiterals some

theorem token_takes {word : List Char} (read : token number nVars d word = .ok d') :
    Takes nVars ((Text.int64? word).bind Literal.ofInt?).toList d d' := by
  unfold token at read
  split at read
  · cases read
  · rename_i i number
    rw [number, Option.bind_some]
    split at read
    · rename_i zero
      cases read
      rw [zero]
      exact close_takes nVars d
    · rename_i l literal
      split at read
      · cases read
      · rename_i inside
        cases read
        rw [literal]
        refine ⟨rfl, rfl, ?_, ?_, id⟩
        · intro other
          simp [Holds, or_assoc]
        · intro other member
          cases Option.mem_toList.mp member
          exact ⟨var_pos_of_ofInt? literal, by omega⟩

theorem foldlM_token_takes {tokens : List (List Char)}
    (read : tokens.foldlM (token number nVars) d = .ok d') :
    Takes nVars (Line.literals tokens).mentioned d d' := by
  induction tokens generalizing d with
  | nil =>
    cases read
    exact Takes.refl nVars _
  | cons word tokens ih =>
    rw [List.foldlM_cons, bind_eq_ok_iff] at read
    obtain ⟨between, first, rest⟩ := read
    have both := (token_takes first).trans (ih rest)
    cases literal : (Text.int64? word).bind Literal.ofInt? <;>
      simpa [Line.mentioned, literal] using both

structure Reads (lines : List (Option (List Char))) (d : Draft) : Prop where
  declared : d.declared = (counts lines).getLast?
  holds : ∀ l, d.Holds l ↔ l ∈ mentioned lines
  -- Each literal was compared with some header, not always with the last one.
  checked : ∀ l ∈ mentioned lines, 0 < l.var ∧ ∃ n ∈ counts lines, l.var ≤ n
  proper : ∀ c ∈ d.clauses, Proper c

theorem empty_reads : Reads [] empty := by
  refine ⟨rfl, ?_, ?_, ?_⟩
  · simp [Holds, empty, mentioned]
  · simp [mentioned]
  · simp [empty]

variable {lines : List (Option (List Char))} {cs : List Char}

theorem Reads.silent (reads : Reads lines d) (none : (Line.ofChars cs).mentioned = [])
    (declared : d'.declared = (counts lines ++ (Line.ofChars cs).counts).getLast?)
    (clauses : d'.clauses = d.clauses) (pending : d'.pending = d.pending) :
    Reads (lines ++ [some cs]) d' := by
  have mentions : mentioned (lines ++ [some cs]) = mentioned lines := by
    rw [mentioned_append_singleton, none, List.append_nil]
  refine ⟨?_, ?_, ?_, ?_⟩
  · rw [counts_append_singleton, declared]
  · intro l
    rw [mentions, ← reads.holds, Holds, Holds, clauses, pending]
  · intro l member
    rw [mentions] at member
    obtain ⟨first, n, header, inside⟩ := reads.checked l member
    rw [counts_append_singleton]
    exact ⟨first, n, List.mem_append_left _ header, inside⟩
  · rw [clauses]
    exact reads.proper

theorem Reads.take (reads : Reads lines d) (none : (Line.ofChars cs).counts = [])
    (header : d.declared = some nVars) (takes : Takes nVars (Line.ofChars cs).mentioned d d') :
    Reads (lines ++ [some cs]) d' := by
  have headers : counts (lines ++ [some cs]) = counts lines := by
    rw [counts_append_singleton, none, List.append_nil]
  have last : (counts lines).getLast? = some nVars := by rw [← reads.declared, header]
  refine ⟨?_, ?_, ?_, takes.proper reads.proper⟩
  · rw [headers, takes.declared, reads.declared]
  · intro l
    rw [mentioned_append_singleton, takes.holds, reads.holds, List.mem_append]
  · intro l member
    rw [mentioned_append_singleton] at member
    rw [headers]
    rcases List.mem_append.mp member with before | after
    · exact reads.checked l before
    · obtain ⟨first, inside⟩ := takes.ranged l after
      exact ⟨first, nVars, List.mem_of_getLast? last, inside⟩

theorem line_reads (reads : Reads lines d) (read : d.line number cs = .ok d') :
    Reads (lines ++ [some cs]) d' := by
  unfold line at read
  split at read
  · rename_i kind
    cases read
    refine reads.silent (by rw [kind]; rfl) ?_ rfl rfl
    simp [kind, Line.counts, reads.declared]
  · rename_i rest kind
    split at read
    · rename_i n count
      cases read
      refine reads.silent (by rw [kind]; rfl) ?_ rfl rfl
      simp [kind, Line.counts, count]
    · cases read
  · rename_i rest kind
    split at read
    · cases read
    · obtain ⟨weights, _, made⟩ := bind_eq_ok_iff.mp read
      cases made
      refine reads.silent (by rw [kind]; rfl) ?_ rfl rfl
      simp [kind, Line.counts, reads.declared]
  · rename_i tokens kind
    split at read
    · cases read
    · rename_i nVars header
      refine reads.take (by rw [kind]; rfl) header ?_
      rw [kind]
      exact foldlM_token_takes read

theorem lines_reads {rest : List (Option (List Char))} (reads : Reads lines d)
    (read : d.lines number rest = .ok d') : Reads (lines ++ rest) d' := by
  induction rest generalizing lines d number with
  | nil =>
    cases read
    rw [List.append_nil]
    exact reads
  | cons line rest ih =>
    cases line with
    | none => cases read
    | some cs =>
      rw [Draft.lines] at read
      split at read
      · cases read
      · rename_i between taken
        have all := ih (line_reads reads taken) read
        rw [List.append_assoc] at all
        exact all

end Draft

-- What is known of a formula that was read from these lines.
structure ReadFrom (lines : List (Option (List Char))) (f : Formula) : Prop where
  last : (counts lines).getLast? = some f.nVars
  weights_size : f.weights.size = f.nVars + 1
  weight_zero : f.weights[0]? = some 0
  bounded : (total f.weights.toList + 1) * (f.clauses.length + 1) ≤ maxScore
  holds : ∀ l, (∃ c ∈ f.clauses, l ∈ c.literals) ↔ l ∈ mentioned lines
  checked : ∀ l ∈ mentioned lines, 0 < l.var ∧ ∃ n ∈ counts lines, l.var ≤ n
  proper : ∀ c ∈ f.clauses, Proper c

theorem Draft.pending_close (d : Draft) : d.close.pending = #[] := by
  unfold close
  split
  · rename_i empty
    simpa using empty
  · rfl

variable {lines : List (Option (List Char))} {f : Formula}

theorem Draft.finish_readFrom {d : Draft} (reads : Reads lines d) (made : d.finish = .ok f) :
    ReadFrom lines f := by
  have takes := close_takes 0 d
  unfold finish at made
  simp only at made
  split at made
  · cases made
  · rename_i nVars header
    split at made
    · cases made
    · rename_i weights listed
      split at made
      · cases made
      · rename_i arity
        split at made
        · cases made
        · rename_i small
          cases made
          rw [scoreBound_isNone_iff, Decidable.not_not] at small
          refine ⟨?_, ?_, ?_, ?_, ?_, reads.checked, ?_⟩
          · rw [← reads.declared, ← takes.declared, header]
            rfl
          · simp [ofParts, Decidable.not_not.mp arity]
          · simp [ofParts]
          · simpa [ofParts, total_cons] using small
          · intro l
            have kept := takes.holds l
            rw [reads.holds] at kept
            simpa [Holds, d.pending_close, ofParts] using kept
          · simpa [ofParts] using takes.proper reads.proper

theorem ofLines_readFrom (read : ofLines lines = .ok f) : ReadFrom lines f := by
  obtain ⟨d, taken, finished⟩ := bind_eq_ok_iff.mp read
  have reads := Draft.lines_reads Draft.empty_reads taken
  rw [List.nil_append] at reads
  cases made : d.finish with
  | error cause =>
    rw [made] at finished
    cases finished
  | ok g =>
    rw [made] at finished
    cases finished
    exact Draft.finish_readFrom reads made

namespace ReadFrom

theorem in_range_iff (source : ReadFrom lines f) :
    (∀ c ∈ f.clauses, ∀ l ∈ c.literals, l.var ≤ f.nVars) ↔ ∀ l ∈ mentioned lines, l.var ≤ f.nVars := by
  constructor
  · intro inside l member
    obtain ⟨c, clause, literal⟩ := (source.holds l).mpr member
    exact inside c clause l literal
  · intro inside c clause l literal
    exact inside l ((source.holds l).mp ⟨c, clause, literal⟩)

theorem var_pos (source : ReadFrom lines f) {c : Clause} (clause : c ∈ f.clauses) {l : Literal}
    (literal : l ∈ c.literals) : 0 < l.var :=
  (source.checked l ((source.holds l).mp ⟨c, clause, literal⟩)).1

theorem valid_iff (source : ReadFrom lines f) :
    f.Valid ↔ ∀ l ∈ mentioned lines, l.var ≤ f.nVars := by
  rw [← source.in_range_iff]
  constructor
  · intro valid c clause l literal
    exact (valid.in_range c clause l literal).2
  · intro inside
    refine ⟨source.weights_size, source.weight_zero, ?_, source.bounded⟩
    intro c clause l literal
    exact ⟨source.var_pos clause literal, inside c clause l literal⟩

-- Headers that never take variables back leave no literal outside.
theorem in_range_of_ascending (source : ReadFrom lines f) (ascending : (counts lines).Pairwise (· ≤ ·)) :
    ∀ l ∈ mentioned lines, l.var ≤ f.nVars := by
  intro l member
  obtain ⟨_, n, header, inside⟩ := source.checked l member
  obtain ⟨before, split⟩ := List.getLast?_eq_some_iff.mp source.last
  rw [split] at ascending header
  rcases List.mem_append.mp header with earlier | latest
  · have le := (List.pairwise_append.mp ascending).2.2 n earlier f.nVars (by simp)
    omega
  · have equal := List.mem_singleton.mp latest
    omega

theorem indexed_iff (source : ReadFrom lines f) :
    (∃ index, Occurrences.ofFormula f = .ok index) ↔ ∀ l ∈ mentioned lines, l.var ≤ f.nVars := by
  constructor
  · rintro ⟨index, made⟩
    exact source.in_range_iff.mp (Occurrences.in_range_of_ofFormula made)
  · intro inside
    obtain ⟨index, made, _⟩ := Occurrences.ofFormula_tables (source.valid_iff.mpr inside)
    exact ⟨index, made⟩

end ReadFrom

theorem scoreBound_tail_isSome (source : ReadFrom lines f) :
    (scoreBound f.weights.toList.tail f.clauses.length).isSome := by
  have tail : total f.weights.toList.tail ≤ total f.weights.toList := by
    cases f.weights.toList with
    | nil => exact Nat.le_refl _
    | cons w rest =>
      rw [List.tail_cons, total_cons]
      omega
  have bound : (total f.weights.toList.tail + 1) * (f.clauses.length + 1) ≤ maxScore :=
    Nat.le_trans (Nat.mul_le_mul_right _ (Nat.succ_le_succ tail)) source.bounded
  exact scoreBound_isSome_iff.mpr bound

-- Whatever is read obeys the rules of a formula but for the range of its literals. That rule holds, and
-- the tables of occurrences can be filled, exactly if no literal of the text lies beyond the last
-- header; headers that never go down are enough for it.
theorem read_formula_obeys_rules_iff {bytes : ByteArray} (read : ofBytes bytes = .ok f) :
    let lines := Text.byteLines bytes
    (counts lines).getLast? = some f.nVars ∧ f.weights.size = f.nVars + 1 ∧ f.weights[0]? = some 0 ∧
      (scoreBound f.weights.toList.tail f.clauses.length).isSome ∧
      (∀ c ∈ f.clauses, c.literals ≠ [] ∧ c.literals.Nodup ∧ ∀ l ∈ c.literals, 0 < l.var) ∧
      (build f.nVars f.weights.toList.tail f.clauses = .ok f ↔
        ∀ l ∈ mentioned lines, l.var ≤ f.nVars) ∧
      ((∃ index, Occurrences.ofFormula f = .ok index) ↔ ∀ l ∈ mentioned lines, l.var ≤ f.nVars) ∧
      ((counts lines).Pairwise (· ≤ ·) → ∀ l ∈ mentioned lines, l.var ≤ f.nVars) := by
  intro lines
  have source : ReadFrom lines f := ofLines_readFrom read
  refine ⟨source.last, source.weights_size, source.weight_zero, scoreBound_tail_isSome source, ?_, ?_,
    source.indexed_iff, source.in_range_of_ascending⟩
  · intro c clause
    obtain ⟨some, nodup⟩ := source.proper c clause
    exact ⟨some, nodup, fun l literal => source.var_pos clause literal⟩
  · rw [build_parts_iff, source.valid_iff]

-- The second header adds a variable, and the clause after it uses it.
theorem read_formula_obeys_rules_iff_growing :
    let text := "p cnf 1 2\nw 3 4 0\n-1 0\np cnf 2 2\n1 -2 1"
    let f := ofParts 2 [3, 4] [⟨[.negative 1]⟩, ⟨[.positive 1, .negative 2]⟩]
    let lines := Text.byteLines text.toUTF8
    ofBytes text.toUTF8 = .ok f ∧ counts lines = [1, 2] ∧
      (counts lines).getLast? = some f.nVars ∧ f.weights.size = f.nVars + 1 ∧
      f.weights[0]? = some 0 ∧ (scoreBound f.weights.toList.tail f.clauses.length).isSome ∧
      (∀ c ∈ f.clauses, c.literals ≠ [] ∧ c.literals.Nodup ∧ ∀ l ∈ c.literals, 0 < l.var) ∧
      (build f.nVars f.weights.toList.tail f.clauses = .ok f ↔
        ∀ l ∈ mentioned lines, l.var ≤ f.nVars) ∧
      ((∃ index, Occurrences.ofFormula f = .ok index) ↔ ∀ l ∈ mentioned lines, l.var ≤ f.nVars) ∧
      ((counts lines).Pairwise (· ≤ ·) → ∀ l ∈ mentioned lines, l.var ≤ f.nVars) := by
  intro text f lines
  have read : ofBytes text.toUTF8 = .ok f := toOption_eq_some_iff.mp (by decide +kernel)
  have headers : counts lines = [1, 2] := by decide +kernel
  exact ⟨read, headers, read_formula_obeys_rules_iff read⟩

-- The literal is compared with the first header and the formula is made with the second.
theorem later_header_leaves_stray_literal :
    let f := ofParts 1 [3] [⟨[.positive 5]⟩]
    ofBytes "p cnf 5 1\n5 0\np cnf 1 1\nw 3 0\n".toUTF8 = .ok f ∧
      build f.nVars f.weights.toList.tail f.clauses = .error (.formula (.clauseVariable 0 5 1)) ∧
      Occurrences.ofFormula f = .error .outOfRange := by
  exact ⟨toOption_eq_some_iff.mp (by decide +kernel), rfl, rfl⟩

end WeightedCnf.Formula
