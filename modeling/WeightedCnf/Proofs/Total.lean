import WeightedCnf.Fault

namespace WeightedCnf

theorem total_cons (n : Nat) (ns : List Nat) : total (n :: ns) = n + total ns := rfl

theorem total_map_zero (xs : List α) : total (xs.map fun _ => 0) = 0 := by
  induction xs with
  | nil => rfl
  | cons x xs ih => rw [List.map_cons, total_cons, ih]

theorem total_map_add (g h : α → Nat) (xs : List α) :
    total (xs.map fun x => g x + h x) = total (xs.map g) + total (xs.map h) := by
  induction xs with
  | nil => rfl
  | cons x xs ih =>
    simp only [List.map_cons, total_cons, ih]
    omega

theorem total_map_indicator (p : α → Bool) (xs : List α) :
    total (xs.map fun x => if p x then 1 else 0) = xs.countP p := by
  induction xs with
  | nil => rfl
  | cons x xs ih => rw [List.map_cons, total_cons, ih, List.countP_cons, Nat.add_comm]

theorem total_map_filter (p : Nat → Bool) (g : Nat → Nat) (ns : List Nat) :
    total ((ns.filter p).map g) = total (ns.map fun n => if p n then g n else 0) := by
  induction ns with
  | nil => rfl
  | cons n ns ih =>
    cases holds : p n <;> simp [holds, total, ih]

theorem total_map_le {g h : α → Nat} {ns : List α} (below : ∀ n ∈ ns, g n ≤ h n) :
    total (ns.map g) ≤ total (ns.map h) := by
  induction ns with
  | nil => exact Nat.le_refl _
  | cons n ns ih =>
    have first := below n (by simp)
    have rest := ih fun m later => below m (List.mem_cons_of_mem _ later)
    simp only [List.map_cons, total_cons]
    omega

theorem total_map_of_notMem {g h : Nat → Nat} {n : Nat} {ns : List Nat} (absent : n ∉ ns)
    (same : ∀ m, m ≠ n → h m = g m) : total (ns.map h) = total (ns.map g) := by
  refine congrArg total (List.map_congr_left fun m member => same m ?_)
  intro equal
  exact absent (equal ▸ member)

theorem total_map_update {g h : Nat → Nat} {n extra : Nat} {ns : List Nat} (member : n ∈ ns)
    (distinct : ns.Nodup) (same : ∀ m, m ≠ n → h m = g m) (more : h n = g n + extra) :
    total (ns.map h) = total (ns.map g) + extra := by
  induction ns with
  | nil => cases member
  | cons m ns ih =>
    obtain ⟨absent, distinct⟩ := List.nodup_cons.mp distinct
    simp only [List.map_cons, total_cons]
    rcases List.mem_cons.mp member with rfl | later
    · rw [total_map_of_notMem absent same, more]
      omega
    · have other : m ≠ n := fun equal => absent (equal ▸ later)
      rw [ih later distinct, same m other]
      omega

-- A sum that is made step by step, where each step is safe as long as its result stays in the limit.
theorem foldlM_sum_eq_ok {step : Nat → α → Except ε Nat} {amount : α → Nat} {limit start : Nat}
    {xs : List α} (each : ∀ x ∈ xs, ∀ n, n + amount x ≤ limit → step n x = .ok (n + amount x))
    (fits : start + total (xs.map amount) ≤ limit) :
    xs.foldlM step start = .ok (start + total (xs.map amount)) := by
  induction xs generalizing start with
  | nil => rfl
  | cons x xs ih =>
    simp only [List.map_cons, total_cons, ← Nat.add_assoc] at fits ⊢
    have rest := @ih (start + amount x) (fun y later => each y (List.mem_cons_of_mem _ later)) fits
    rw [List.foldlM_cons, each x (by simp) start (by omega)]
    exact rest

end WeightedCnf
