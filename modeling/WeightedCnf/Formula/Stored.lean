import WeightedCnf.Formula.Basic
import WeightedCnf.Json.Decode
import WeightedCnf.Json.Printer

-- A stored value is taken as it is: nothing is checked or removed, and the table of weights includes its
-- entry 0.

namespace WeightedCnf

namespace Literal

def toJson (l : Literal) : Json := .ofFields [("var", .ofNat l.var), ("negated", .bool l.negated)]

def ofJson? (j : Json) : Option Literal := do
  match ← j.record? ["var", "negated"] false with
  | [some var, some negated] => return ⟨← var.nat64?, ← negated.bool?⟩
  | _ => none

end Literal

namespace Clause

def toJson (c : Clause) : Json := .ofFields [("literals", .array (c.literals.map Literal.toJson))]

def ofJson? (j : Json) : Option Clause := do
  match ← j.record? ["literals"] false with
  | [some literals] => return ⟨← literals.list? Literal.ofJson?⟩
  | _ => none

end Clause

namespace Formula

def toJson (f : Formula) : Json :=
  .ofFields [("n_vars", .ofNat f.nVars), ("weights", .array (f.weights.toList.map .ofNat)),
    ("clauses", .array (f.clauses.map Clause.toJson))]

def ofJson? (j : Json) : Option Formula := do
  match ← j.record? ["n_vars", "weights", "clauses"] false with
  | [some nVars, some weights, some clauses] =>
    return ⟨← nVars.nat64?, (← weights.list? Json.nat64?).toArray, ← clauses.list? Clause.ofJson?⟩
  | _ => none

def store (f : Formula) : String := f.toJson.compact

def restore (s : String) : Except Error Formula :=
  match (Json.parse? s).bind ofJson? with
  | some f => .ok f
  | none => .error .stored

end Formula

namespace Assignment

def toJson (a : Assignment) : Json := .ofFields [("values", .array (a.values.toList.map .bool))]

def ofJson? (j : Json) : Option Assignment := do
  match ← j.record? ["values"] false with
  | [some values] => return ⟨(← values.list? Json.bool?).toArray⟩
  | _ => none

def store (a : Assignment) : String := a.toJson.compact

def restore (s : String) : Except Error Assignment :=
  match (Json.parse? s).bind ofJson? with
  | some a => .ok a
  | none => .error .stored

end Assignment

end WeightedCnf
