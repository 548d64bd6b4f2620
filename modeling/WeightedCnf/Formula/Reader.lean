import WeightedCnf.Formula.Basic
import WeightedCnf.Text.Blank
import WeightedCnf.Text.Integer
import WeightedCnf.Text.Lines

-- A header line `p … n` declares the number of variables, a line `w … 0` lists their weights, and the words
-- of all other lines are one sequence of literals in which zeros separate the clauses.

namespace WeightedCnf.Formula

inductive Line where
  | skip
  | header (rest : List (List Char))
  | weights (rest : List (List Char))
  | literals (tokens : List (List Char))
deriving DecidableEq, Repr

-- The first character of a line that is not blank decides what the line is for.
def Line.ofChars (cs : List Char) : Line :=
  match Text.words cs with
  | [] => .skip
  | first :: rest =>
    match first.head? with
    | some 'c' => .skip
    | some '%' => .skip
    | some 'p' => .header rest
    | some 'w' => .weights rest
    | _ => .literals (first :: rest)

def Line.count? (rest : List (List Char)) : Option Nat := (rest[1]?).bind Text.nat64?

structure Draft where
  declared : Option Nat
  weights : Option (List Nat)
  clauses : Array Clause
  pending : Array Literal
deriving DecidableEq, Repr

namespace Draft

def empty : Draft := ⟨none, none, #[], #[]⟩

def close (d : Draft) : Draft :=
  if d.pending.isEmpty then d
  else { d with clauses := d.clauses.push (.ofLiterals d.pending.toList), pending := #[] }

def token (line nVars : Nat) (d : Draft) (word : List Char) : Except FormatError Draft :=
  match Text.int64? word with
  | none => .error (.invalidToken line (String.ofList word))
  | some i =>
    match Literal.ofInt? i with
    | none => .ok d.close
    | some l =>
      if nVars < l.var then .error (.variableOutOfRange line l.var nVars)
      else .ok { d with pending := d.pending.push l }

-- The weights of a line: its last word only ends the list and is not looked at.
def readWeights (line : Nat) (rest : List (List Char)) : Except FormatError (List Nat) :=
  rest.dropLast.mapM fun word =>
    match Text.nat64? word with
    | some w => .ok w
    | none => .error (.invalidToken line (String.ofList word))

def line (number : Nat) (d : Draft) (cs : List Char) : Except FormatError Draft :=
  match Line.ofChars cs with
  | .skip => .ok d
  | .header rest =>
    match Line.count? rest with
    | some n => .ok { d with declared := some n }
    | none => .error (.invalidHeader number)
  | .weights rest =>
    match d.weights with
    | some _ => .error (.duplicateWeights number)
    | none => do return { d with weights := some (← readWeights number rest) }
  | .literals tokens =>
    match d.declared with
    | none => .error .missingHeader
    | some nVars => tokens.foldlM (token number nVars) d

def lines (number : Nat) (d : Draft) : List (Option (List Char)) → Except Error Draft
  | [] => .ok d
  | none :: _ => .error (.file .notText)
  | some cs :: rest =>
    match d.line number cs with
    | .error cause => .error (.format cause)
    | .ok d => d.lines (number + 1) rest

def finish (d : Draft) : Except FormatError Formula :=
  let d := d.close
  match d.declared with
  | none => .error .missingHeader
  | some nVars =>
    match d.weights with
    | none => .error .missingWeights
    | some weights =>
      if weights.length ≠ nVars then .error (.weightArity nVars weights.length)
      else if (scoreBound weights d.clauses.size).isNone then .error (.weightOverflow maxScore)
      else .ok (ofParts nVars weights d.clauses.toList)

end Draft

def ofLines (lines : List (Option (List Char))) : Except Error Formula := do
  let d ← Draft.empty.lines 1 lines
  d.finish.mapError .format

def ofText (s : String) : Except Error Formula := ofLines (Text.decodedLines s)

def ofBytes (bytes : ByteArray) : Except Error Formula := ofLines (Text.byteLines bytes)

end WeightedCnf.Formula
