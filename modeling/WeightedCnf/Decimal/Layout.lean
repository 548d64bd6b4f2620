import WeightedCnf.Decimal.Shortest

namespace WeightedCnf.Decimal

def digitText (n : Nat) : List Char := Nat.toDigits 10 n

def zeros (n : Nat) : List Char := List.replicate n '0'

def Scaled.split (d : Scaled) : List Char × List Char :=
  let ds := digitText d.digits
  if 0 ≤ d.exponent then (ds ++ zeros d.exponent.toNat, [])
  else
    let places := (-d.exponent).toNat
    let ds := zeros (places + 1 - ds.length) ++ ds
    (ds.take (ds.length - places), ds.drop (ds.length - places))

def Scaled.positional (d : Scaled) : String :=
  match d.split with
  | (whole, []) => String.ofList whole
  | (whole, fraction) => String.ofList (whole ++ '.' :: fraction)

def signed (x : Float) (s : String) : String := if isNegative x then "-" ++ s else s

def plain (x : Float) : String :=
  match magnitude x with
  | .nan => "NaN"
  | .infinite => signed x "inf"
  | .zero => signed x "0"
  | .finite m q narrow => signed x (shortest true m q narrow).positional

def Scaled.scientific (d : Scaled) : String :=
  let ds := digitText d.digits
  let fraction := if ds.length = 1 then [] else '.' :: ds.drop 1
  String.ofList (ds.take 1 ++ fraction) ++ "e" ++ toString ((ds.length : Int) - 1 + d.exponent)

-- A number in the log: with a point if it is written positionally, and with an exponent if it is below
-- a ten thousandth or has more than 16 digits before its point.
def marked (x : Float) : String :=
  match magnitude x with
  | .nan => "NaN"
  | .infinite => signed x "inf"
  | .zero => signed x "0.0"
  | .finite m q narrow =>
    let d := shortest true m q narrow
    let point := ((digitText d.digits).length : Int) + d.exponent
    if point < -3 ∨ 16 < point then signed x d.scientific
    else if 0 ≤ d.exponent then signed x (d.positional ++ ".0")
    else signed x d.positional

end WeightedCnf.Decimal
