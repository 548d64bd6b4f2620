-- Sums and products of weights, scores and tallies are natural numbers inside 32 or 64 bit words, and one that
-- leaves its word is a fault. The counters of searches and of annealing runs are words and wrap around.

namespace WeightedCnf

inductive Fault where
  | overflow
  | underflow
  | outOfRange
  | alreadyAssigned
  | notAssigned
  | lengthMismatch
  | emptyRange
  | capacity
  -- The allowance of steps ran out before the computation ended.
  | outOfFuel
deriving DecidableEq, Repr

def word32 : Nat := 4294967296

def word64 : Nat := 18446744073709551616

-- One more than the largest size of a table in bytes.
def tableLimit : Nat := 9223372036854775808

def within (limit n : Nat) : Except Fault Nat :=
  if n < limit then .ok n else .error .overflow

def add32 (a b : Nat) : Except Fault Nat := within word32 (a + b)

def add64 (a b : Nat) : Except Fault Nat := within word64 (a + b)

def mul64 (a b : Nat) : Except Fault Nat := within word64 (a * b)

def subtract (a b : Nat) : Except Fault Nat :=
  if b ≤ a then .ok (a - b) else .error .underflow

def total : List Nat → Nat
  | [] => 0
  | n :: rest => n + total rest

def sum64 (ns : List Nat) : Except Fault Nat := ns.foldlM add64 0

def entry (xs : Array α) (i : Nat) : Except Fault α :=
  match xs[i]? with
  | some x => .ok x
  | none => .error .outOfRange

-- A table of `count` entries of `bytes` bytes each can exist only below `tableLimit`.
def reserve (bytes count : Nat) : Except Fault Unit :=
  if bytes * count < tableLimit then .ok () else .error .capacity

theorem bind_eq_ok_iff {x : Except ε α} {f : α → Except ε β} {b : β} :
    (x >>= f) = .ok b ↔ ∃ a, x = .ok a ∧ f a = .ok b := by
  cases x <;> simp [bind, Except.bind]

theorem within_eq_ok_iff {limit n r : Nat} : within limit n = .ok r ↔ n < limit ∧ r = n := by
  unfold within
  split
  · simp [*, eq_comm]
  · simp [*]

theorem subtract_eq_ok_iff {a b r : Nat} : subtract a b = .ok r ↔ b ≤ a ∧ r = a - b := by
  unfold subtract
  split
  · simp [*, eq_comm]
  · simp [*]

theorem foldlM_add64_eq_ok_iff {ns : List Nat} {start r : Nat} (small : start < word64) :
    ns.foldlM add64 start = .ok r ↔ start + total ns < word64 ∧ r = start + total ns := by
  induction ns generalizing start with
  | nil =>
    simp only [List.foldlM_nil, total, Nat.add_zero, pure, Except.pure, Except.ok.injEq]
    exact ⟨fun equal => ⟨small, equal.symm⟩, fun ⟨_, equal⟩ => equal.symm⟩
  | cons n ns ih =>
    simp only [List.foldlM_cons, bind_eq_ok_iff, add64, within_eq_ok_iff, total]
    constructor
    · rintro ⟨_, ⟨fits, rfl⟩, rest⟩
      have after := (ih fits).mp rest
      omega
    · rintro ⟨fits, equal⟩
      have first : start + n < word64 := by omega
      exact ⟨_, ⟨first, rfl⟩, (ih first).mpr (by omega)⟩

theorem sum64_eq_ok_iff {ns : List Nat} {r : Nat} :
    sum64 ns = .ok r ↔ total ns < word64 ∧ r = total ns := by
  have start : 0 < word64 := by decide
  simpa only [sum64, Nat.zero_add] using foldlM_add64_eq_ok_iff start

theorem entry_eq_ok_iff {xs : Array α} {i : Nat} {x : α} : entry xs i = .ok x ↔ xs[i]? = some x := by
  unfold entry
  split <;> simp_all

end WeightedCnf
