import WeightedCnf.Assignment

namespace WeightedCnf

structure Clause where
  literals : List Literal
deriving DecidableEq, Repr

namespace Clause

-- Each literal is kept at its first occurrence only.
def ofLiterals (ls : List Literal) : Clause := ⟨ls.eraseDups⟩

def ofInts (ints : List Int) : Clause := ofLiterals (ints.filterMap Literal.ofInt?)

def size (c : Clause) : Nat := c.literals.length

def sorted (c : Clause) : List Literal := c.literals.mergeSort Literal.le

def vars (c : Clause) : List Nat := ((c.literals.map (·.var)).mergeSort (· ≤ ·)).eraseDups

-- The literals are tried in order, and the first true one decides.
def isSatisfiedBy (c : Clause) (a : Assignment) : Except Fault Bool :=
  c.literals.anyM fun l => return l.holds (← a.value l.var)

def text (c : Clause) : String :=
  "(" ++ String.intercalate " ∨ " (c.literals.map Literal.text) ++ ")"

theorem mem_ofLiterals {l : Literal} {ls : List Literal} :
    l ∈ (ofLiterals ls).literals ↔ l ∈ ls := List.mem_eraseDups

theorem nodup_ofLiterals (ls : List Literal) : (ofLiterals ls).literals.Nodup := by
  suffices ∀ n (ls : List Literal), ls.length ≤ n → ls.eraseDups.Nodup from this _ ls (Nat.le_refl _)
  intro n
  induction n with
  | zero => intro ls h; simp [List.length_eq_zero_iff.mp (Nat.le_zero.mp h)]
  | succ n ih =>
    intro ls h
    cases ls with
    | nil => simp
    | cons l rest =>
      rw [List.eraseDups_cons, List.nodup_cons]
      refine ⟨by simp [List.mem_eraseDups], ih _ ?_⟩
      exact Nat.le_trans (List.length_filter_le _ _) (by simpa using h)

end Clause

end WeightedCnf
