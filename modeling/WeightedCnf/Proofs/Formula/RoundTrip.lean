import WeightedCnf.Formula.Reader
import WeightedCnf.Formula.Writer
import WeightedCnf.Proofs.Formula.Valid
import WeightedCnf.Proofs.Text.Written

namespace WeightedCnf

open Text

def Literal.number (l : Literal) : Int := if l.negated then -(l.var : Int) else l.var

namespace Formula

-- An empty clause leaves no trace in what is read.
def nonEmpty (cs : List Clause) : List Clause := cs.filter (!·.literals.isEmpty)

namespace Draft

def append (d : Draft) (cs : List Clause) : Draft :=
  { d with clauses := d.clauses ++ (nonEmpty cs).toArray }

theorem append_nil (d : Draft) : d.append [] = d := by
  simp [append, nonEmpty]

theorem append_cons (d : Draft) (c : Clause) (cs : List Clause) :
    d.append (c :: cs) = (d.append [c]).append cs := by
  cases empty : c.literals.isEmpty <;> simp [append, nonEmpty, empty]

theorem finish_eq_ok_iff {d : Draft} {nVars : Nat} {weights : List Nat} {f : Formula}
    (closed : d.pending = #[]) (header : d.declared = some nVars) (listed : d.weights = some weights) :
    d.finish = .ok f ↔
      weights.length = nVars ∧ (total weights + 1) * (d.clauses.size + 1) ≤ maxScore ∧
        f = ofParts nVars weights d.clauses.toList := by
  have same : d.close = d := by simp [close, closed]
  simp only [finish, same, header, listed]
  split
  · rename_i arity
    simp [arity]
  · rename_i arity
    split
    · rename_i large
      have large := scoreBound_isNone_iff.mp large
      simp [large]
    · rename_i small
      rw [scoreBound_isNone_iff, Decidable.not_not] at small
      simp [Decidable.not_not.mp arity, small, eq_comm]

end Draft

section Written
variable {nVars : Nat} {weights : List Nat} {clauses : List Clause}

end Written

end Formula

end WeightedCnf
