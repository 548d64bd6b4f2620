import WeightedCnf.Random.Draw

namespace WeightedCnf.ChaCha

abbrev Block := Vector UInt32 16

def rotateLeft (x n : UInt32) : UInt32 := (x <<< n) ||| (x >>> (32 - n))

def quarterRound (s : Block) (a b c d : Fin 16) : Block :=
  let s := s.set a (s[a] + s[b])
  let s := s.set d (rotateLeft (s[d] ^^^ s[a]) 16)
  let s := s.set c (s[c] + s[d])
  let s := s.set b (rotateLeft (s[b] ^^^ s[c]) 12)
  let s := s.set a (s[a] + s[b])
  let s := s.set d (rotateLeft (s[d] ^^^ s[a]) 8)
  let s := s.set c (s[c] + s[d])
  s.set b (rotateLeft (s[b] ^^^ s[c]) 7)

def doubleRound (s : Block) : Block :=
  let s := quarterRound s 0 4 8 12
  let s := quarterRound s 1 5 9 13
  let s := quarterRound s 2 6 10 14
  let s := quarterRound s 3 7 11 15
  let s := quarterRound s 0 5 10 15
  let s := quarterRound s 1 6 11 12
  let s := quarterRound s 2 7 8 13
  quarterRound s 3 4 9 14

def input (key : Vector UInt32 8) (counter : UInt64) : Block :=
  #v[0x61707865, 0x3320646e, 0x79622d32, 0x6b206574,
    key[0], key[1], key[2], key[3], key[4], key[5], key[6], key[7],
    counter.toUInt32, (counter >>> 32).toUInt32, 0, 0]

def block (key : Vector UInt32 8) (counter : UInt64) : Block :=
  let start := input key counter
  (Nat.repeat doubleRound 6 start).zipWith (· + ·) start

structure Stream where
  key : Vector UInt32 8
  counter : UInt64
  pending : List UInt32

namespace Stream

def next32 (s : Stream) : UInt32 × Stream :=
  match s.pending with
  | word :: rest => (word, { s with pending := rest })
  | [] =>
    let words := block s.key s.counter
    (words[0], { s with counter := s.counter + 1, pending := words.toList.tail })

def next64 (s : Stream) : UInt64 × Stream :=
  let (low, s) := s.next32
  let (high, s) := s.next32
  (low.toUInt64 ||| (high.toUInt64 <<< 32), s)

instance : WordSource Stream where
  next32 := next32
  next64 := next64

def seedStep (s : UInt64) : UInt64 := s * 6364136223846793005 + 11634580027462260723

-- The key word of a generator state: its upper half is folded and rotated by its highest bits.
def keyWord (s : UInt64) : UInt32 :=
  let x := (((s >>> 18) ^^^ s) >>> 27).toUInt32
  let n := (s >>> 59).toUInt32
  (x >>> n) ||| (x <<< ((32 - n) &&& 31))

def ofKey (key : Vector UInt32 8) : Stream := ⟨key, 0, []⟩

def ofBytes (bytes : ByteArray) : Stream :=
  let byte (i : Nat) : UInt32 := (bytes.data[i]?.getD 0).toUInt32
  ofKey (Vector.ofFn fun i : Fin 8 => byte (4 * i) ||| (byte (4 * i + 1) <<< 8)
    ||| (byte (4 * i + 2) <<< 16) ||| (byte (4 * i + 3) <<< 24))

def ofSeed (seed : UInt64) : Stream :=
  ofKey (Vector.ofFn fun i : Fin 8 => keyWord (Nat.repeat seedStep (i + 1) seed))

end Stream

end WeightedCnf.ChaCha
