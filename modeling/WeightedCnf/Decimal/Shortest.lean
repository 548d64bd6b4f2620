-- A finite number is `m * 2 ^ q`. The reals that round to it form an interval whose ends lie half way to its
-- neighbours; the ends belong to it exactly if `m` is even. Of the decimals with 1, 2, … 17 digits the first
-- in the interval is taken.

namespace WeightedCnf.Decimal

structure Scaled where
  digits : Nat
  exponent : Int
deriving DecidableEq, Repr

inductive Magnitude where
  | nan
  | infinite
  | zero
  -- `mantissa * 2 ^ exponent`; `narrow` says that the neighbour below is only half as far away as
  -- the neighbour above.
  | finite (mantissa : Nat) (exponent : Int) (narrow : Bool)
deriving DecidableEq, Repr

def isNegative (x : Float) : Bool := x.toBits.toNat >>> 63 == 1

def magnitude (x : Float) : Magnitude :=
  let bits : Nat := x.toBits.toNat
  let hidden : Nat := 4503599627370496
  let fraction : Nat := bits % hidden
  let field : Nat := bits / hidden % 2048
  if field = 2047 then (if fraction = 0 then .infinite else .nan)
  else if field = 0 then (if fraction = 0 then .zero else .finite fraction (-1074) false)
  else .finite (hidden + fraction) ((field : Int) - 1075) (fraction = 0 && 1 < field)

def fractionOfPower (base : Nat) (e : Int) : Nat × Nat := (base.pow e.toNat, base.pow (-e).toNat)

def Scaled.trim (d : Scaled) : Scaled :=
  if d.digits ≠ 0 ∧ d.digits % 10 = 0 then Scaled.trim ⟨d.digits / 10, d.exponent + 1⟩ else d
termination_by d.digits
decreasing_by omega

def firstPlace (num den : Nat) : Int :=
  if den ≤ num then ((Nat.toDigits 10 (num / den)).length : Int) - 1
  else -(((List.range 400).find? fun j => den ≤ num * Nat.pow 10 j).getD 0 : Int)

-- The better of the two decimals with last place `10 ^ place` around a number, if one of them reads
-- back as the number. `tieUp` decides between two that are equally near.
def onGrid (tieUp : Bool) (m : Nat) (q : Int) (narrow : Bool) (place : Int) : Option Scaled :=
  -- Everything is measured in quarters of the unit `2 ^ q`, over one common denominator.
  let (two, half) := fractionOfPower 2 q
  let (ten, tenth) := fractionOfPower 10 place
  let value := 4 * m * two * tenth
  let low := (4 * m - if narrow then 1 else 2) * two * tenth
  let high := (4 * m + 2) * two * tenth
  let step := 4 * ten * half
  let below := value / step
  let fits (c : Nat) : Bool :=
    if m % 2 = 0 then low ≤ c * step && c * step ≤ high else low < c * step && c * step < high
  match fits below, fits (below + 1) with
  | false, false => none
  | true, false => some ⟨below, place⟩
  | false, true => some ⟨below + 1, place⟩
  | true, true =>
    let left := value - below * step
    let right := (below + 1) * step - value
    if right < left || (left == right && tieUp) then some ⟨below + 1, place⟩ else some ⟨below, place⟩

def shortest (tieUp : Bool) (m : Nat) (q : Int) (narrow : Bool) : Scaled :=
  let (two, half) := fractionOfPower 2 q
  let first := firstPlace (m * two) half
  let found := (List.range 17).findSome? fun (n : Nat) => onGrid tieUp m q narrow (first - n)
  (found.getD ⟨m * two / half, 0⟩).trim

end WeightedCnf.Decimal
