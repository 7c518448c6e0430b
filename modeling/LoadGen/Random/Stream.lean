/-
The random stream of a seed: the key stream of the ChaCha cipher with twelve rounds, read as 64-bit words. The key is
spread from the seed by a permuted congruential generator. A stream is its key and the number of words drawn, so the
k-th word depends on the seed and k alone.
-/
namespace LoadGen.Random

/-- sixteen 32-bit words -/
abbrev Block := Vector UInt32 16

def rotateLeft (x n : UInt32) : UInt32 :=
  (x <<< n) ||| (x >>> (32 - n))

/-- the quarter round on four words of a block -/
def quarterRound (s : Block) (a b c d : Fin 16) : Block :=
  let s := s.set a (s[a] + s[b])
  let s := s.set d (rotateLeft (s[d] ^^^ s[a]) 16)
  let s := s.set c (s[c] + s[d])
  let s := s.set b (rotateLeft (s[b] ^^^ s[c]) 12)
  let s := s.set a (s[a] + s[b])
  let s := s.set d (rotateLeft (s[d] ^^^ s[a]) 8)
  let s := s.set c (s[c] + s[d])
  s.set b (rotateLeft (s[b] ^^^ s[c]) 7)

/-- two rounds: the columns, then the diagonals -/
def doubleRound (s : Block) : Block :=
  let s := quarterRound s 0 4 8 12
  let s := quarterRound s 1 5 9 13
  let s := quarterRound s 2 6 10 14
  let s := quarterRound s 3 7 11 15
  let s := quarterRound s 0 5 10 15
  let s := quarterRound s 1 6 11 12
  let s := quarterRound s 2 7 8 13
  quarterRound s 3 4 9 14

/-- the key stream of a seed from a position on -/
structure Stream where
  key : Vector UInt32 8
  /-- 64-bit words drawn -/
  position : Nat

/-- the block before its rounds: four constant words, the key, the block's number and two zero words -/
def Stream.start (s : Stream) (number : Nat) : Block :=
  #v[0x61707865, 0x3320646e, 0x79622d32, 0x6b206574,
    s.key[0], s.key[1], s.key[2], s.key[3], s.key[4], s.key[5], s.key[6], s.key[7],
    UInt32.ofNat number, UInt32.ofNat (number / Nat.pow 2 32), 0, 0]

/-- a block of the key stream -/
def Stream.block (s : Stream) (number : Nat) : Block :=
  let first := s.start number
  let last := (List.range 6).foldl (fun b _ => doubleRound b) first
  Vector.zipWith (· + ·) first last

/-- word `k` of the stream: two words of a block, the low half first -/
def Stream.word (s : Stream) (k : Nat) : Nat :=
  let b := s.block (k / 8)
  let low := b.get ⟨2 * (k % 8), by omega⟩
  let high := b.get ⟨2 * (k % 8) + 1, by omega⟩
  low.toNat + Nat.pow 2 32 * high.toNat

/-- the next word -/
def Stream.next (s : Stream) : Nat × Stream :=
  (s.word s.position, { s with position := s.position + 1 })

/-- one step of the generator that spreads a seed -/
def spreadStep (state : UInt64) : UInt64 :=
  state * 6364136223846793005 + 11634580027462260723

/-- the word that a state of that generator gives -/
def spreadWord (state : UInt64) : UInt32 :=
  let mixed := (((state >>> 18) ^^^ state) >>> 27).toUInt32
  let turn := (state >>> 59).toUInt32
  (mixed >>> turn) ||| (mixed <<< ((32 - turn) % 32))

/-- the state after `n` steps -/
def spreadState (seed : UInt64) (n : Nat) : UInt64 :=
  (List.range n).foldl (fun s _ => spreadStep s) seed

/-- the stream of a seed -/
def Stream.ofSeed (seed : Nat) : Stream :=
  ⟨Vector.ofFn fun i : Fin 8 => spreadWord (spreadState (UInt64.ofNat seed) (i.val + 1)), 0⟩

/-- the number of values of a 64-bit word -/
def wordCount : Nat := 18446744073709551616

/-- a number from `low` to `high`: the high half of a word times the size of the range, corrected by a second word where
the low half says that the first cannot decide -/
def Stream.between (s : Stream) (low high : Nat) : Nat × Stream :=
  let size := high - low + 1
  let (x, s) := s.next
  if wordCount ≤ size then (x, s)
  else
    let product := x * size
    let offset := product / wordCount
    let rest := product % wordCount
    if wordCount - size < rest then
      let (y, s) := s.next
      let carry := if wordCount ≤ rest + y * size / wordCount then 1 else 0
      (low + offset + carry, s)
    else (low + offset, s)

end LoadGen.Random
