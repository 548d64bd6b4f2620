namespace WeightedCnf.Decimal

-- Digits with an optional point among them: the digits, and how many stand after the point. There
-- must be at least one digit. The rest is what follows them.
def mantissa? (cs : List Char) : Option (List Char × Nat × List Char) :=
  let (whole, rest) := cs.span Char.isDigit
  let (fraction, rest) := match rest with
    | '.' :: more => more.span Char.isDigit
    | _ => ([], rest)
  if whole.isEmpty && fraction.isEmpty then none else some (whole ++ fraction, fraction.length, rest)

def exponent? (cs : List Char) : Option Int :=
  let value (ds : List Char) : Option Int :=
    if !ds.isEmpty && ds.all Char.isDigit then some (Nat.ofDigitChars 10 ds 0 : Int) else none
  match cs with
  | [] => some 0
  | mark :: rest =>
    if mark == 'e' || mark == 'E' then
      match rest with
      | '-' :: ds => (value ds).map fun e => -e
      | '+' :: ds => value ds
      | ds => value ds
    else none

def nearest (m : Nat) (e : Int) : Float :=
  if 0 ≤ e then OfScientific.ofScientific m false e.toNat
  else OfScientific.ofScientific m true (-e).toNat

def unsignedFloat? (cs : List Char) : Option Float :=
  let name := String.ofList (cs.map Char.toLower)
  if name == "inf" || name == "infinity" then some (1.0 / 0.0)
  else if name == "nan" then some (0.0 / 0.0)
  else do
    let (ds, places, rest) ← mantissa? cs
    let e ← exponent? rest
    return nearest (Nat.ofDigitChars 10 ds 0) (e - places)

def float? (cs : List Char) : Option Float :=
  match cs with
  | '-' :: rest => (unsignedFloat? rest).map fun x => -x
  | '+' :: rest => unsignedFloat? rest
  | _ => unsignedFloat? cs

end WeightedCnf.Decimal
