import WeightedCnf.Fault

namespace WeightedCnf

theorem toOption_eq_some_iff {x : Except ε α} {a : α} : x.toOption = some a ↔ x = .ok a := by
  cases x <;> simp [Except.toOption]

theorem map_eq_ok_iff {x : Except ε α} {g : α → β} {b : β} :
    x.map g = .ok b ↔ ∃ a, x = .ok a ∧ g a = b := by
  cases x <;> simp [Except.map]

theorem mapError_eq_ok_iff {x : Except ε α} {change : ε → ε'} {a : α} :
    x.mapError change = .ok a ↔ x = .ok a := by
  cases x with
  | error cause => exact ⟨nofun, nofun⟩
  | ok b =>
    have kept : (Except.ok b : Except ε α).mapError change = .ok b := rfl
    rw [kept, Except.ok.injEq, Except.ok.injEq]

theorem mapError_eq_error_iff {x : Except ε α} {change : ε → ε'} {cause : ε'} :
    x.mapError change = .error cause ↔ ∃ inner, x = .error inner ∧ change inner = cause := by
  cases x with
  | error inner =>
    have changed : (Except.error inner : Except ε α).mapError change = .error (change inner) := rfl
    simp [changed]
  | ok a =>
    have kept : (Except.ok a : Except ε α).mapError change = .ok a := rfl
    simp [kept]

theorem bind_eq_error_iff {x : Except ε α} {next : α → Except ε β} {cause : ε} :
    (x >>= next) = .error cause ↔ x = .error cause ∨ ∃ a, x = .ok a ∧ next a = .error cause := by
  cases x <;> simp [bind, Except.bind]

theorem mapM_eq_ok {p : α → Except ε β} {q : α → β} {xs : List α}
    (each : ∀ x ∈ xs, p x = .ok (q x)) : xs.mapM p = .ok (xs.map q) := by
  induction xs with
  | nil => rfl
  | cons x xs ih =>
    have rest := ih fun y later => each y (List.mem_cons_of_mem _ later)
    simp only [List.mapM_cons, each x (by simp), rest, bind, Except.bind, List.map_cons]
    rfl

theorem findM?_eq_ok {p : α → Except ε Bool} {q : α → Bool} {xs : List α}
    (each : ∀ x ∈ xs, p x = .ok (q x)) : xs.findM? p = .ok (xs.find? q) := by
  induction xs with
  | nil => rfl
  | cons x xs ih =>
    have rest := ih fun y later => each y (List.mem_cons_of_mem _ later)
    simp only [List.findM?, each x (by simp), bind, Except.bind, List.find?_cons]
    cases q x with
    | true => rfl
    | false => simpa using rest

theorem anyM_eq_ok {p : α → Except ε Bool} {q : α → Bool} {xs : List α}
    (each : ∀ x ∈ xs, p x = .ok (q x)) : xs.anyM p = .ok (xs.any q) := by
  induction xs with
  | nil => rfl
  | cons x xs ih =>
    have rest := ih fun y later => each y (List.mem_cons_of_mem _ later)
    simp only [List.anyM_cons, each x (by simp), bind, Except.bind, List.any_cons]
    cases q x with
    | true => rfl
    | false => simpa using rest

theorem allM_eq_ok {p : α → Except ε Bool} {q : α → Bool} {xs : List α}
    (each : ∀ x ∈ xs, p x = .ok (q x)) : xs.allM p = .ok (xs.all q) := by
  induction xs with
  | nil => rfl
  | cons x xs ih =>
    have rest := ih fun y later => each y (List.mem_cons_of_mem _ later)
    simp only [List.allM_cons, each x (by simp), bind, Except.bind, List.all_cons]
    cases q x with
    | true => simpa using rest
    | false => rfl

theorem length_of_mapM_eq_ok {p : α → Except ε β} {xs : List α} {ys : List β}
    (mapped : xs.mapM p = .ok ys) : ys.length = xs.length := by
  induction xs generalizing ys with
  | nil =>
    cases mapped
    rfl
  | cons x xs ih =>
    rw [List.mapM_cons] at mapped
    obtain ⟨y, _, later⟩ := bind_eq_ok_iff.mp mapped
    obtain ⟨rest, tail, made⟩ := bind_eq_ok_iff.mp later
    cases made
    rw [List.length_cons, List.length_cons, ih tail]

theorem forall_of_foldlM {step : β → α → Except ε β} {kept : β → Prop} {passed : α → Prop}
    (each : ∀ b x b', kept b → step b x = .ok b' → passed x ∧ kept b') {xs : List α} {b b' : β}
    (start : kept b) (done : xs.foldlM step b = .ok b') : (∀ x ∈ xs, passed x) ∧ kept b' := by
  induction xs generalizing b with
  | nil =>
    cases done
    exact ⟨by simp, start⟩
  | cons x xs ih =>
    rw [List.foldlM_cons, bind_eq_ok_iff] at done
    obtain ⟨middle, first, rest⟩ := done
    obtain ⟨here, between⟩ := each b x middle start first
    obtain ⟨later, final⟩ := ih between rest
    exact ⟨List.forall_mem_cons.mpr ⟨here, later⟩, final⟩

theorem error_of_foldlM {step : β → α → Except ε β} {blame : ε → Prop}
    (each : ∀ b x cause, step b x = .error cause → blame cause) {xs : List α} {b : β} {cause : ε}
    (failed : xs.foldlM step b = .error cause) : blame cause := by
  induction xs generalizing b with
  | nil => cases failed
  | cons x xs ih =>
    rw [List.foldlM_cons, bind_eq_error_iff] at failed
    rcases failed with here | ⟨between, _, later⟩
    · exact each b x cause here
    · exact ih later

theorem error_of_mapM {step : α → Except ε β} {blame : ε → Prop}
    (each : ∀ x cause, step x = .error cause → blame cause) {xs : List α} {cause : ε}
    (failed : xs.mapM step = .error cause) : blame cause := by
  induction xs with
  | nil => cases failed
  | cons x xs ih =>
    rw [List.mapM_cons, bind_eq_error_iff] at failed
    rcases failed with here | ⟨y, _, later⟩
    · exact each x cause here
    · rcases bind_eq_error_iff.mp later with rest | ⟨ys, _, done⟩
      · exact ih rest
      · cases done

-- Entries that are read one by one: all of them can be read, or the first that cannot ends the reading.
section Entries
variable {step : α → Except ε β} {parse : α → Option β} {front back xs : List α}

theorem mapM_eq_ok_iff (reads : ∀ x y, step x = .ok y ↔ parse x = some y) {ys : List β} :
    xs.mapM step = .ok ys ↔ (∀ x ∈ xs, (parse x).isSome) ∧ ys = xs.filterMap parse := by
  induction xs generalizing ys with
  | nil =>
    constructor
    · intro read
      cases read
      exact ⟨nofun, rfl⟩
    · rintro ⟨_, rfl⟩
      rfl
  | cons x xs ih =>
    rw [List.mapM_cons, bind_eq_ok_iff, List.forall_mem_cons]
    simp only [reads]
    cases parsed : parse x with
    | none => simp
    | some y =>
      simp only [Option.some.injEq, exists_eq_left', bind_eq_ok_iff, ih, List.filterMap_cons_some parsed,
        Option.isSome_some, true_and]
      constructor
      · rintro ⟨_, ⟨all, rfl⟩, made⟩
        cases made
        exact ⟨all, rfl⟩
      · rintro ⟨all, rfl⟩
        exact ⟨_, ⟨all, rfl⟩, rfl⟩

theorem mapM_eq_error {x : α} {cause : ε} (read : ∀ y ∈ front, ∃ value, step y = .ok value)
    (failed : step x = .error cause) : (front ++ x :: back).mapM step = .error cause := by
  induction front with
  | nil =>
    rw [List.nil_append, List.mapM_cons, failed]
    rfl
  | cons y front ih =>
    obtain ⟨⟨value, here⟩, later⟩ := List.forall_mem_cons.mp read
    rw [List.cons_append, List.mapM_cons, here, ih later]
    rfl

end Entries

theorem getElem?_concat_cases {xs : List α} {x y : α} {k : Nat} (found : (xs ++ [x])[k]? = some y) :
    xs[k]? = some y ∨ k = xs.length ∧ x = y := by
  rw [List.getElem?_append] at found
  split at found
  · exact .inl found
  · rename_i outside
    right
    obtain ⟨inside, equal⟩ := List.getElem?_eq_some_iff.mp found
    rw [List.length_singleton] at inside
    refine ⟨by omega, ?_⟩
    simpa using equal

theorem toNat_succ_of_lt {a b : UInt64} (less : a < b) : (a + 1).toNat = a.toNat + 1 := by
  have below := UInt64.lt_iff_toNat_lt.mp less
  have limit := b.toNat_lt
  rw [UInt64.toNat_add, UInt64.toNat_one]
  omega

theorem diteInduction {c : Prop} [Decidable c] {motive : α → Prop} {yes : c → α} {no : ¬ c → α}
    (pos : ∀ h, motive (yes h)) (neg : ∀ h, motive (no h)) : motive (dite c yes no) := by
  by_cases h : c
  · rw [dif_pos h]
    exact pos h
  · rw [dif_neg h]
    exact neg h

theorem compare_neg (a b : Int) : compare (-a) (-b) = (compare a b).swap := by
  rw [Int.compare_swap]
  simp only [compare, compareOfLessAndEq]
  grind

theorem compare_natCast (m n : Nat) : compare (m : Int) (n : Int) = compare m n := by
  simp only [compare, compareOfLessAndEq]
  grind

theorem log2_shiftLeft {n : Nat} (nonzero : n ≠ 0) (k : Nat) : (n <<< k).log2 = n.log2 + k := by
  induction k with
  | zero => rfl
  | succ k ih =>
    have still : n <<< k ≠ 0 := by
      rw [Nat.shiftLeft_eq]
      exact Nat.mul_ne_zero nonzero (Nat.ne_of_gt (Nat.two_pow_pos k))
    rw [Nat.shiftLeft_succ, Nat.log2_two_mul still, ih]
    rfl

end WeightedCnf
