import WeightedCnf.Decimal.Layout
import WeightedCnf.Json.Value

namespace WeightedCnf.Json

def digitChars (ds : List Nat) : List Char := ds.map Nat.digitChar

def Number.render (n : Number) : String :=
  let fraction := if n.fraction.isEmpty then [] else '.' :: digitChars n.fraction
  let exponent := match n.exponent with
    | none => []
    | some (negative, ds) => 'e' :: ((if negative then ['-'] else []) ++ digitChars ds)
  String.ofList ((if n.negative then ['-'] else []) ++ digitChars n.whole ++ fraction ++ exponent)

def escaped (c : Char) : List Char :=
  if c == '"' then ['\\', '"']
  else if c == '\\' then ['\\', '\\']
  else if c == '\n' then ['\\', 'n']
  else if c == '\r' then ['\\', 'r']
  else if c == '\t' then ['\\', 't']
  else if c == '\x08' then ['\\', 'b']
  else if c == '\x0c' then ['\\', 'f']
  else if c.toNat < 0x20 then
    ['\\', 'u', '0', '0', Nat.digitChar (c.toNat / 16), Nat.digitChar (c.toNat % 16)]
  else [c]

def quoted (s : String) : String := "\"" ++ String.ofList (s.toList.flatMap escaped) ++ "\""

def enclosed (opening closing : String) (depth : Option Nat) (items : List String) : String :=
  if items.isEmpty then opening ++ closing
  else match depth with
    | none => opening ++ String.intercalate "," items ++ closing
    | some d =>
      let margin (n : Nat) := "\n" ++ String.ofList (List.replicate (2 * n) ' ')
      opening ++ margin (d + 1) ++ String.intercalate ("," ++ margin (d + 1)) items ++ margin d ++ closing

mutual

def render (depth : Option Nat) : Json → String
  | .null => "null"
  | .bool b => if b then "true" else "false"
  | .number n => n.render
  | .text s => quoted (s.getD "")
  | .array items => enclosed "[" "]" depth (renderItems (depth.map (· + 1)) items)
  | .object fields => enclosed "\x7b" "\x7d" depth (renderFields (depth.map (· + 1)) fields)

def renderItems (depth : Option Nat) : List Json → List String
  | [] => []
  | v :: rest => render depth v :: renderItems depth rest

def renderFields (depth : Option Nat) : List (Option String × Json) → List String
  | [] => []
  | (key, v) :: rest =>
    (quoted (key.getD "") ++ (if depth.isSome then ": " else ":") ++ render depth v)
      :: renderFields depth rest

end

def compact (v : Json) : String := render none v

def pretty (v : Json) : String := render (some 0) v

-- The shortest number that reads back. The point stands after at most 16 digits and before at most
-- 5 zeros, and at least one digit follows it; otherwise there is an exponent.
def Number.ofFloat? (x : Float) : Option Number :=
  let digits (cs : List Char) : List Nat := cs.map fun c => c.toNat - '0'.toNat
  match Decimal.magnitude x with
  | .nan => none
  | .infinite => none
  | .zero => some ⟨Decimal.isNegative x, [0], [0], none⟩
  | .finite m q narrow =>
    let d := Decimal.shortest false m q narrow
    let ds := Decimal.digitText d.digits
    let point := (ds.length : Int) + d.exponent
    if -5 < point ∧ point ≤ 16 then
      let (whole, fraction) := d.split
      let fraction := if fraction.isEmpty then ['0'] else fraction
      some ⟨Decimal.isNegative x, digits whole, digits fraction, none⟩
    else
      let exponent := (decide (point < 1), digits (Decimal.digitText (point - 1).natAbs))
      some ⟨Decimal.isNegative x, digits (ds.take 1), digits (ds.drop 1), some exponent⟩

def ofFloat (x : Float) : Json :=
  match Number.ofFloat? x with
  | some n => .number n
  | none => .null

def ofNat (n : Nat) : Json := .number (.ofNat n)

def ofInt (i : Int) : Json := .number { Number.ofNat i.natAbs with negative := decide (i < 0) }

def ofText (s : String) : Json := .text (some s)

def ofFields (fields : List (String × Json)) : Json :=
  .object (fields.map fun (key, v) => (some key, v))

end WeightedCnf.Json
