import WeightedCnf.Random.Draw

-- A given list of 64 bit words, continued by a linear congruential generator from the last of them.

namespace WeightedCnf

structure Scripted where
  words : List UInt64
  last : UInt64
deriving DecidableEq, Repr

namespace Scripted

def ofWords (words : List UInt64) : Scripted := ⟨words, 0⟩

def next64 (s : Scripted) : UInt64 × Scripted :=
  match s.words with
  | word :: rest => (word, ⟨rest, word⟩)
  | [] =>
    let word := s.last * 6364136223846793005 + 1442695040888963407
    (word, ⟨[], word⟩)

def next32 (s : Scripted) : UInt32 × Scripted :=
  let (word, s) := s.next64
  (word.toUInt32, s)

instance : WordSource Scripted where
  next32 := next32
  next64 := next64

end Scripted

end WeightedCnf
