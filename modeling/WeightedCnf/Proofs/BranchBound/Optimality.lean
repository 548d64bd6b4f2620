import WeightedCnf.Proofs.State.Decided

namespace WeightedCnf.BranchBound

-- The order of lists of values: the first place at which they differ decides, false before true.
def Before (xs ys : List Bool) : Prop := List.Lex (fun x y => x = false ∧ y = true) xs ys

theorem Before.append_left {xs ys : List Bool} (before : Before xs ys) (start : List Bool) :
    Before (start ++ xs) (start ++ ys) := by
  induction start with
  | nil => exact before
  | cons b start ih => exact .cons ih

theorem before_of_branches (decided xs ys : List Bool) :
    Before (decided ++ [false] ++ xs) (decided ++ [true] ++ ys) := by
  rw [List.append_assoc, List.append_assoc]
  exact Before.append_left (.rel ⟨rfl, rfl⟩) decided

theorem falses_first (ys : List Bool) :
    List.replicate ys.length false = ys ∨ Before (List.replicate ys.length false) ys := by
  induction ys with
  | nil => exact .inl rfl
  | cons y ys ih =>
    rw [List.length_cons, List.replicate_succ]
    cases y with
    | true => exact .inr (.rel ⟨rfl, rfl⟩)
    | false =>
      rcases ih with equal | before
      · exact .inl (by rw [equal])
      · exact .inr (.cons before)

variable {f : Formula} {decided : List Bool}

def Completes (f : Formula) (decided bits : List Bool) : Prop :=
  decided <+: bits ∧ bits.length = f.nVars

theorem completes_nil {bits : List Bool} : Completes f [] bits ↔ bits.length = f.nVars := by
  simp [Completes]

theorem completes_of_full (full : decided.length = f.nVars) {bits : List Bool} :
    Completes f decided bits ↔ bits = decided := by
  constructor
  · rintro ⟨start, length⟩
    exact (start.eq_of_length (by omega)).symm
  · rintro rfl
    exact ⟨List.prefix_rfl, full⟩

theorem completes_branches (more : decided.length < f.nVars) {bits : List Bool} :
    Completes f decided bits ↔
      Completes f (decided ++ [false]) bits ∨ Completes f (decided ++ [true]) bits := by
  constructor
  · rintro ⟨⟨rest, rfl⟩, length⟩
    cases rest with
    | nil => simp at length; omega
    | cons value rest =>
      cases value
      · exact .inl ⟨⟨rest, by simp⟩, length⟩
      · exact .inr ⟨⟨rest, by simp⟩, length⟩
  · rintro (⟨start, length⟩ | ⟨start, length⟩)
    · exact ⟨(List.prefix_append _ _).trans start, length⟩
    · exact ⟨(List.prefix_append _ _).trans start, length⟩

def leastCompletion (f : Formula) (decided : List Bool) : List Bool :=
  decided ++ List.replicate (f.nVars - decided.length) false

theorem leastCompletion_completes (fits : decided.length ≤ f.nVars) :
    Completes f decided (leastCompletion f decided) := by
  refine ⟨List.prefix_append _ _, ?_⟩
  simp only [leastCompletion, List.length_append, List.length_replicate]
  omega

theorem leastCompletion_first {bits : List Bool} (completes : Completes f decided bits) :
    leastCompletion f decided = bits ∨ Before (leastCompletion f decided) bits := by
  obtain ⟨⟨rest, rfl⟩, length⟩ := completes
  have equal : f.nVars - decided.length = rest.length := by
    rw [← length, List.length_append]
    omega
  rw [leastCompletion, equal]
  rcases falses_first rest with same | before
  · exact .inl (by rw [same])
  · exact .inr (before.append_left decided)

def bitWeight (f : Formula) (bits : List Bool) : Nat := f.weightUnder (valuesOf f.nVars bits)

theorem bitWeight_nil (f : Formula) : bitWeight f [] = 0 := State.weightUnder_nothing f

theorem bitWeight_append_singleton {f : Formula} {decided : List Bool}
    (more : decided.length < f.nVars) (value : Bool) :
    bitWeight f (decided ++ [value]) =
      bitWeight f decided + if value then f.weights.getD (decided.length + 1) 0 else 0 :=
  weightUnder_append_singleton more value

theorem bitWeight_append (f : Formula) (decided rest : List Bool)
    (fits : decided.length + rest.length ≤ f.nVars) (valid : f.Valid) :
    bitWeight f (decided ++ rest) ≤ bitWeight f decided + openWeight f decided.length := by
  induction rest generalizing decided with
  | nil => rw [List.append_nil]; omega
  | cons value rest ih =>
    simp only [List.length_cons] at fits
    have more : decided.length < f.nVars := by omega
    have later := ih (decided ++ [value]) (by simp; omega)
    have here := bitWeight_append_singleton more value
    have step := openWeight_step valid more
    rw [List.append_assoc, List.singleton_append, List.length_append, List.length_singleton] at later
    split at here <;> omega

theorem bitWeight_falses (f : Formula) (decided : List Bool) (count : Nat)
    (fits : decided.length + count ≤ f.nVars) :
    bitWeight f (decided ++ List.replicate count false) = bitWeight f decided := by
  induction count generalizing decided with
  | zero => rw [List.replicate_zero, List.append_nil]
  | succ count ih =>
    have more : decided.length < f.nVars := by omega
    have later := ih (decided ++ [false]) (by simp; omega)
    rw [List.append_assoc, List.singleton_append] at later
    rw [List.replicate_succ, later]
    exact bitWeight_append_singleton more false

def IsModel (f : Formula) (bits : List Bool) : Prop :=
  f.clauses.all (Clause.isTrue (valuesOf f.nVars bits)) = true

theorem isModel_of_satisfied {bits : List Bool} (completes : Completes f decided bits)
    (satisfied : f.clauses.all (Clause.isTrue (valuesOf f.nVars decided)) = true) : IsModel f bits := by
  obtain ⟨⟨rest, rfl⟩, length⟩ := completes
  have fits : decided.length ≤ f.nVars := by
    rw [← length, List.length_append]
    omega
  simp only [IsModel, List.all_eq_true] at satisfied ⊢
  intro c member
  exact (valuesOf_extends fits rest).isTrue (satisfied c member)

theorem not_isModel_of_conflict {bits : List Bool} (completes : Completes f decided bits)
    (conflict : f.clauses.any (Clause.isFalse (valuesOf f.nVars decided)) = true) :
    ¬ IsModel f bits := by
  obtain ⟨⟨rest, rfl⟩, length⟩ := completes
  have fits : decided.length ≤ f.nVars := by
    rw [← length, List.length_append]
    omega
  intro satisfied
  simp only [IsModel, List.all_eq_true, List.any_eq_true] at satisfied conflict
  obtain ⟨c, member, false⟩ := conflict
  have untrue := (valuesOf_extends fits rest).not_isTrue false
  rw [satisfied c member] at untrue
  cases untrue

-- One list is preferred to another if it weighs more, or as much and does not stand after it.
def Leads (f : Formula) (bits other : List Bool) : Prop :=
  bitWeight f other ≤ bitWeight f bits ∧
    (bitWeight f other = bitWeight f bits → bits = other ∨ Before bits other)

def noted (f : Formula) (bits : List Bool) : Incumbent := ⟨bitWeight f bits, ⟨bits.toArray⟩⟩

-- The incumbent is the preferred model among the seen ones, and there is none only if no model was seen.
structure Best (f : Formula) (seen : List Bool → Prop) (incumbent : Option Incumbent) : Prop where
  sound : ∀ best, incumbent = some best → ∃ bits, seen bits ∧ IsModel f bits ∧ best = noted f bits
  complete : ∀ other, seen other → IsModel f other →
    ∃ bits, incumbent = some (noted f bits) ∧ Leads f bits other

namespace Best
variable {seen new : List Bool → Prop} {incumbent : Option Incumbent}

theorem congr {same : List Bool → Prop} (best : Best f seen incumbent)
    (equal : ∀ bits, seen bits ↔ same bits) : Best f same incumbent := by
  have eq : seen = same := funext fun bits => propext (equal bits)
  rwa [eq] at best

theorem extend (best : Best f seen incumbent)
    (dominated : ∀ other, new other → IsModel f other →
      ∃ bits, incumbent = some (noted f bits) ∧ Leads f bits other) :
    Best f (fun bits => seen bits ∨ new bits) incumbent := by
  refine ⟨?_, ?_⟩
  · intro record equal
    obtain ⟨bits, before, model, eq⟩ := best.sound record equal
    exact ⟨bits, .inl before, model, eq⟩
  · rintro other (before | after) model
    · exact best.complete other before model
    · exact dominated other after model

theorem nothing (f : Formula) : Best f (fun _ => False) none := by
  refine ⟨?_, ?_⟩
  · intro record none
    cases none
  · intro other impossible
    exact impossible.elim

theorem replace (best : Best f seen incumbent) {bits : List Bool} (model : IsModel f bits)
    (heavier : improves incumbent (bitWeight f bits) = true) :
    Best f (fun other => seen other ∨ other = bits) (some (noted f bits)) := by
  refine ⟨?_, ?_⟩
  · intro record equal
    cases Option.some.inj equal
    exact ⟨bits, .inr rfl, model, rfl⟩
  · rintro other (before | rfl) model
    · obtain ⟨old, equal, leads⟩ := best.complete other before model
      rw [equal] at heavier
      have more : bitWeight f old < bitWeight f bits := of_decide_eq_true heavier
      exact ⟨bits, rfl, by have := leads.1; omega, by have := leads.1; omega⟩
    · exact ⟨other, rfl, Nat.le_refl _, fun _ => .inl rfl⟩

end Best

section Visit
variable {seen : List Bool → Prop} {t : Tour}

-- Everything seen stands before the completions of the node, or is one of them and the first.
def Behind (f : Formula) (seen : List Bool → Prop) (decided : List Bool) : Prop :=
  ∀ bits, seen bits → ∀ other, Completes f decided other → bits = other ∨ Before bits other

theorem consider_best (fits : decided.length ≤ f.nVars) (best : Best f seen t.incumbent)
    (behind : Behind f seen decided) :
    Best f (fun bits => seen bits ∨
        (f.clauses.all (Clause.isTrue (valuesOf f.nVars decided)) = true ∧
          bits = leastCompletion f decided))
      (t.consider f decided (bitWeight f decided)).incumbent := by
  have completes := leastCompletion_completes fits
  have weight : bitWeight f (leastCompletion f decided) = bitWeight f decided :=
    bitWeight_falses f decided _ (by omega)
  unfold Tour.consider
  cases satisfied : f.clauses.all (Clause.isTrue (valuesOf f.nVars decided)) with
  | false =>
    simp only [Bool.and_false, Bool.false_eq_true, if_false]
    exact best.congr fun bits => by simp
  | true =>
    have model := isModel_of_satisfied completes satisfied
    cases heavier : improves t.incumbent (bitWeight f decided) with
    | true =>
      have replaced := best.replace model (weight ▸ heavier)
      rw [noted, weight] at replaced
      simp only [Bool.and_self, if_true, true_and]
      exact replaced
    | false =>
      simp only [Bool.false_and, Bool.false_eq_true, if_false]
      apply best.extend
      rintro other ⟨_, rfl⟩ _
      cases equal : t.incumbent with
      | none => simp [equal, improves] at heavier
      | some record =>
        obtain ⟨bits, before, _, rfl⟩ := best.sound record equal
        have lighter : bitWeight f decided ≤ bitWeight f bits := by
          simpa [equal, improves, noted] using heavier
        refine ⟨bits, rfl, by omega, fun _ => behind bits before _ completes⟩

theorem conflict_best (best : Best f seen t.incumbent)
    (conflict : f.clauses.any (Clause.isFalse (valuesOf f.nVars decided)) = true) :
    Best f (fun bits => seen bits ∨ Completes f decided bits) t.incumbent := by
  apply best.extend
  intro other completes model
  exact absurd model (not_isModel_of_conflict completes conflict)

theorem beaten_best (valid : f.Valid) (best : Best f seen t.incumbent)
    (behind : Behind f seen decided)
    (beaten : t.isBeaten (bitWeight f decided + openWeight f decided.length) = true) :
    Best f (fun bits => seen bits ∨ Completes f decided bits) t.incumbent := by
  apply best.extend
  intro other completes _
  unfold Tour.isBeaten at beaten
  cases equal : t.incumbent with
  | none => simp [equal] at beaten
  | some record =>
    obtain ⟨bits, before, _, rfl⟩ := best.sound record equal
    have bound : bitWeight f decided + openWeight f decided.length ≤ bitWeight f bits := by
      simpa [equal, noted] using beaten
    have limit : bitWeight f other ≤ bitWeight f decided + openWeight f decided.length := by
      obtain ⟨⟨rest, rfl⟩, length⟩ := completes
      rw [List.length_append] at length
      exact bitWeight_append f decided rest (by omega) valid
    exact ⟨bits, rfl, by omega, fun _ => behind bits before other completes⟩

theorem behind_consider (behind : Behind f seen decided) :
    Behind f (fun bits => seen bits ∨
      (f.clauses.all (Clause.isTrue (valuesOf f.nVars decided)) = true ∧
        bits = leastCompletion f decided)) decided := by
  rintro bits (before | ⟨_, rfl⟩) other completes
  · exact behind bits before other completes
  · exact leastCompletion_first completes

theorem behind_first_branch (more : decided.length < f.nVars) (behind : Behind f seen decided) :
    Behind f seen (decided ++ [false]) := by
  intro bits before other completes
  exact behind bits before other ((completes_branches more).mpr (.inl completes))

theorem behind_second_branch (more : decided.length < f.nVars) (behind : Behind f seen decided) :
    Behind f (fun bits => seen bits ∨ Completes f (decided ++ [false]) bits) (decided ++ [true]) := by
  rintro bits (before | ⟨⟨left, rfl⟩, _⟩) other completes
  · exact behind bits before other ((completes_branches more).mpr (.inr completes))
  · obtain ⟨⟨right, rfl⟩, _⟩ := completes
    exact .inr (before_of_branches decided left right)

theorem consider_absorbed (fits : decided.length ≤ f.nVars) (bits : List Bool) :
    (seen bits ∨ (f.clauses.all (Clause.isTrue (valuesOf f.nVars decided)) = true ∧
        bits = leastCompletion f decided)) ∨ Completes f decided bits ↔
      seen bits ∨ Completes f decided bits := by
  constructor
  · rintro ((before | ⟨_, rfl⟩) | completes)
    · exact .inl before
    · exact .inr (leastCompletion_completes fits)
    · exact .inr completes
  · rintro (before | completes)
    · exact .inl (.inl before)
    · exact .inr completes

theorem leaf_best (full : decided.length = f.nVars) {incumbent : Option Incumbent}
    (considered : Best f (fun bits => seen bits ∨
      (f.clauses.all (Clause.isTrue (valuesOf f.nVars decided)) = true ∧
        bits = leastCompletion f decided)) incumbent) :
    Best f (fun bits => seen bits ∨ Completes f decided bits) incumbent := by
  have least : leastCompletion f decided = decided := by simp [leastCompletion, full]
  refine (considered.extend ?_).congr (consider_absorbed (Nat.le_of_eq full))
  intro other completes model
  rw [(completes_of_full full).mp completes] at model ⊢
  exact considered.complete decided (.inr ⟨model, least.symm⟩) model

-- The induction is over the height of the subtree; the seen lists grow by its completions.
theorem walk_best (valid : f.Valid) {height : Nat} (depth : decided.length + height = f.nVars)
    (best : Best f seen t.incumbent) (behind : Behind f seen decided) :
    Best f (fun bits => seen bits ∨ Completes f decided bits)
      (walk f height decided (openWeight f decided.length) (bitWeight f decided) t).incumbent := by
  have fits : decided.length ≤ f.nVars := by omega
  induction height generalizing decided seen t with
  | zero =>
    have considered := consider_best (t := t.count decided.length) fits best behind
    rw [walk]
    simp only
    split
    · rename_i conflict
      exact conflict_best best conflict
    · split
      · rename_i beaten
        exact (beaten_best valid considered (behind_consider behind) beaten).congr
          (consider_absorbed fits)
      · exact leaf_best depth considered
  | succ height ih =>
    have considered := consider_best (t := t.count decided.length) fits best behind
    have more : decided.length < f.nVars := by omega
    have length : ∀ value, (decided ++ [value]).length = decided.length + 1 := by simp
    have step := openWeight_step valid more
    have rest : openWeight f decided.length - f.weights.getD (decided.length + 1) 0 =
        openWeight f (decided.length + 1) := by omega
    have lighter : bitWeight f (decided ++ [false]) = bitWeight f decided :=
      bitWeight_append_singleton more false
    have heavier : bitWeight f (decided ++ [true]) =
        bitWeight f decided + f.weights.getD (decided.length + 1) 0 :=
      bitWeight_append_singleton more true
    rw [walk]
    simp only [rest]
    split
    · rename_i conflict
      exact conflict_best best conflict
    · split
      · rename_i beaten
        exact (beaten_best valid considered (behind_consider behind) beaten).congr
          (consider_absorbed fits)
      · have first := ih (by rw [length]; omega) considered
          (behind_first_branch more (behind_consider behind)) (by rw [length]; omega)
        rw [length, lighter] at first
        have second := ih (by rw [length]; omega) first
          (behind_second_branch more (behind_consider behind)) (by rw [length]; omega)
        rw [length, heavier] at second
        refine second.congr fun bits => ?_
        rw [or_assoc, ← completes_branches more]
        exact consider_absorbed fits bits

end Visit

theorem walkAll_best (valid : f.Valid) :
    Best f (fun bits => bits.length = f.nVars) (walkAll f).incumbent := by
  have best := @walk_best f [] _ ⟨none, .empty⟩ valid _ (Nat.zero_add f.nVars) (Best.nothing f)
    (fun _ impossible => impossible.elim)
  rw [List.length_nil, openWeight_zero valid, bitWeight_nil] at best
  exact best.congr fun bits => by rw [completes_nil]; simp

theorem walkAll_eq_none_iff (valid : f.Valid) :
    (walkAll f).incumbent = none ↔ ¬ ∃ bits, bits.length = f.nVars ∧ IsModel f bits := by
  have best := walkAll_best valid
  constructor
  · rintro nothing ⟨bits, covers, model⟩
    obtain ⟨first, found, _⟩ := best.complete bits covers model
    rw [nothing] at found
    cases found
  · intro unsatisfiable
    cases found : (walkAll f).incumbent with
    | none => rfl
    | some record =>
      obtain ⟨bits, covers, model, _⟩ := best.sound record found
      exact absurd ⟨bits, covers, model⟩ unsatisfiable

theorem walkAll_eq_some (valid : f.Valid) {record : Incumbent}
    (found : (walkAll f).incumbent = some record) :
    ∃ bits, record = noted f bits ∧ bits.length = f.nVars ∧ IsModel f bits ∧
      ∀ other, other.length = f.nVars → IsModel f other → Leads f bits other := by
  have best := walkAll_best valid
  obtain ⟨bits, covers, model, equal⟩ := best.sound record found
  refine ⟨bits, equal, covers, model, ?_⟩
  intro other total satisfied
  obtain ⟨first, same, leads⟩ := best.complete other total satisfied
  have unique : noted f bits = noted f first := by
    rw [found, equal] at same
    exact Option.some.inj same
  have values : bits.toArray = first.toArray := congrArg (·.assignment.values) unique
  rw [List.toArray_inj values]
  exact leads

end WeightedCnf.BranchBound
