import WeightedCnf.Fault

namespace WeightedCnf

class WordSource (σ : Type) where
  next32 : σ → UInt32 × σ
  next64 : σ → UInt64 × σ

abbrev Draw (σ α : Type) := StateT σ (Except Fault) α

namespace Draw

variable {σ : Type} [WordSource σ]

def bits32 : Draw σ UInt32 := fun s => .ok (WordSource.next32 s)

def bits64 : Draw σ UInt64 := fun s => .ok (WordSource.next64 s)

def bool : Draw σ Bool := return 2147483648 ≤ (← bits32)

-- A number from 0 up to but not including 1: the upper 53 bits of a 64 bit word.
def unit : Draw σ Float := return ((← bits64) >>> 11).toFloat / 9007199254740992.0

-- A fair coin: the highest bit of a 64 bit word is clear.
def coin : Draw σ Bool := return (← bits64) < 9223372036854775808

-- After this many refusals in a row the next word is taken as it is, so every draw returns.
def patience : Nat := 4611686018427387904

-- The largest low half of a product that is taken: the part of the 64 bit words that is a multiple
-- of a power of two times `n`.
def zone (n : Nat) : Nat := (n <<< (63 - n.log2)) - 1

def spread (n : Nat) : Nat → σ → Nat × σ
  | 0, s =>
    let (word, s) := WordSource.next64 s
    (word.toNat * n / word64, s)
  | refusals + 1, s =>
    let (word, s) := WordSource.next64 s
    if word.toNat * n % word64 ≤ zone n then (word.toNat * n / word64, s) else spread n refusals s

def below (n : Nat) : Draw σ Nat := fun s =>
  if n = 0 then .error .emptyRange else .ok (spread n patience s)

def upto (n : Nat) : Draw σ Nat := return (← below n) + 1

def choose (xs : List α) : Draw σ α := do
  match xs[← below xs.length]? with
  | some x => return x
  | none => throw .outOfRange

theorem spread_lt {n : Nat} (pos : 0 < n) (refusals : Nat) (s : σ) : (spread n refusals s).1 < n := by
  have high (word : UInt64) : word.toNat * n / word64 < n := by
    apply Nat.div_lt_of_lt_mul
    exact Nat.mul_lt_mul_of_pos_right word.toNat_lt pos
  induction refusals generalizing s with
  | zero => exact high _
  | succ refusals ih =>
    rw [spread]
    simp only
    split
    · exact high _
    · exact ih _

end Draw

end WeightedCnf
