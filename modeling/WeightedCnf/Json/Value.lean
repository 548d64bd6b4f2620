import WeightedCnf.Fault

-- A number keeps its digits, because what it is worth depends on what it is read as; a text with half of a
-- surrogate pair is `none`, because that matters only where the text itself is asked for.

namespace WeightedCnf.Json

structure Number where
  negative : Bool
  whole : List Nat
  fraction : List Nat
  exponent : Option (Bool × List Nat)
deriving DecidableEq, Repr

namespace Number

def ofDigits (ds : List Nat) : Nat := ds.foldl (fun n d => 10 * n + d) 0

def nat64? (n : Number) : Option Nat :=
  if n.negative || !n.fraction.isEmpty || n.exponent.isSome then none
  else some (ofDigits n.whole) |>.filter (· < word64)

def absorb (significand : Nat) : List Nat → Nat × Nat
  | [] => (significand, 0)
  | d :: ds =>
    if 10 * significand + d < word64 then
      let (total, count) := absorb (10 * significand + d) ds
      (total, count + 1)
    else (significand, 0)

def powerOfTen (e : Nat) : Float := OfScientific.ofScientific 1 false e

-- Divides by a power of ten, in steps that are themselves floating point numbers: as long as more
-- than 308 places are left, 308 of them at a time.
def shrink (x : Float) (e : Nat) : Float :=
  let largest := powerOfTen 308
  let steps := (e - 1) / 308
  Nat.repeat (· / largest) steps x / powerOfTen (e - 308 * steps)

def scale? (x : Float) (e : Int) : Option Float :=
  if e < 0 then some (shrink x (-e).toNat)
  else if 308 < e then (if x == 0.0 then some x else none)
  else
    let y := x * powerOfTen e.toNat
    if y.isInf then none else some y

-- The number as a floating point number. The digits that fit a 64 bit significand count, the others
-- only move the point; the significand is scaled by the power of ten in one floating point
-- operation.
def float? (n : Number) : Option Float := do
  let (significand, count) := absorb 0 n.whole
  let dropped := n.whole.length - count
  let (significand, places) := absorb significand n.fraction
  let point := (dropped : Int) - places
  let x := significand.toUInt64.toFloat
  let size ← match n.exponent with
    | none => scale? x point
    | some (negative, ds) =>
      let e := ofDigits ds
      if 2147483647 < e then (if significand ≠ 0 && !negative then none else some 0.0)
      else scale? x (if negative then point - e else point + e)
  return if n.negative then -size else size

def ofNat (n : Nat) : Number := ⟨false, (Nat.toDigits 10 n).map fun c => c.toNat - 48, [], none⟩

end Number

end Json

inductive Json where
  | null
  | bool (b : Bool)
  | number (n : Json.Number)
  | text (s : Option String)
  | array (items : List Json)
  | object (fields : List (Option String × Json))

end WeightedCnf
