import WeightedCnf.Assignment
import WeightedCnf.Text.Blank
import WeightedCnf.Text.Integer
import WeightedCnf.Text.Lines

namespace WeightedCnf.Model

-- The words after the mark `v`, if the line has the mark. The first of them may stand right behind
-- the mark.
def marked? (cs : List Char) : Option (List (List Char)) :=
  match Text.words cs with
  | ('v' :: more) :: rest => some (if more.isEmpty then rest else more :: rest)
  | _ => none

def lineInts (number : Nat) (cs : List Char) : Except FormatError (List Int) :=
  ((marked? cs).getD []).mapM fun word =>
    match Text.int64? word with
    | some i => .ok i
    | none => .error (.invalidToken number (String.ofList word))

def ints (number : Nat) : List (Option (List Char)) → Except Error (List Int)
  | [] => .ok []
  | none :: _ => .error (.file .notText)
  | some cs :: rest => do
    let here ← (lineInts number cs).mapError .format
    return here ++ (← ints (number + 1) rest)

-- All numbers are read before their range is looked at.
def ofLines (nVars : Nat) (lines : List (Option (List Char))) : Except Error Assignment := do
  Assignment.ofInts nVars (← ints 1 lines)

def ofText (nVars : Nat) (s : String) : Except Error Assignment :=
  ofLines nVars (Text.decodedLines s)

def ofBytes (nVars : Nat) (bytes : ByteArray) : Except Error Assignment :=
  ofLines nVars (Text.byteLines bytes)

def line (a : Assignment) : String :=
  "v " ++ String.join (a.toInts.map fun i => toString i ++ " ") ++ "0"

end WeightedCnf.Model
