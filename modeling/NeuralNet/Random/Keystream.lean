/-!
Words that look random: a block cipher run over a counter, and a place in its output. What is drawn
depends on the key and on how many words were drawn before, and on nothing else.
-/

namespace NeuralNet

/-- Sixteen words of 32 bits. -/
abbrev CipherBlock := Vector UInt32 16

namespace CipherBlock

def rotateLeft (x : UInt32) (n : UInt32) : UInt32 := (x <<< n) ||| (x >>> (32 - n))

def quarterRound (a b c d : Fin 16) (s : CipherBlock) : CipherBlock :=
  let s := s.set a (s[a] + s[b])
  let s := s.set d (rotateLeft (s[d] ^^^ s[a]) 16)
  let s := s.set c (s[c] + s[d])
  let s := s.set b (rotateLeft (s[b] ^^^ s[c]) 12)
  let s := s.set a (s[a] + s[b])
  let s := s.set d (rotateLeft (s[d] ^^^ s[a]) 8)
  let s := s.set c (s[c] + s[d])
  s.set b (rotateLeft (s[b] ^^^ s[c]) 7)

/-- The columns, then the diagonals. -/
def doubleRound (s : CipherBlock) : CipherBlock :=
  let s := quarterRound 0 4 8 12 s
  let s := quarterRound 1 5 9 13 s
  let s := quarterRound 2 6 10 14 s
  let s := quarterRound 3 7 11 15 s
  let s := quarterRound 0 5 10 15 s
  let s := quarterRound 1 6 11 12 s
  let s := quarterRound 2 7 8 13 s
  quarterRound 3 4 9 14 s

/-- Eight rounds, added to what went in. -/
def scramble (s : CipherBlock) : CipherBlock :=
  (doubleRound (doubleRound (doubleRound (doubleRound s)))).zipWith (· + ·) s

end CipherBlock

/-- Eight words of 32 bits. -/
abbrev CipherKey := Vector UInt32 8

namespace CipherKey

/-- Four constants, the key, the number of the block in two words, and two zeros. -/
def input (k : CipherKey) (counter : Nat) : CipherBlock :=
  #v[0x61707865, 0x3320646e, 0x79622d32, 0x6b206574,
    k[0], k[1], k[2], k[3], k[4], k[5], k[6], k[7],
    counter.toUInt32, (counter >>> 32).toUInt32, 0, 0]

def block (k : CipherKey) (counter : Nat) : CipherBlock := (input k counter).scramble

/-- The word at a position of the keystream. -/
def word (k : CipherKey) (position : Nat) : UInt32 :=
  (k.block (position / 16)).get ⟨position % 16, Nat.mod_lt _ (by decide)⟩

/-- One step of the generator that spreads a seed over a key. -/
def advance (state : UInt64) : UInt64 := state * 6364136223846793005 + 11634580027462260723

/-- The word that a generator state gives. -/
def output (state : UInt64) : UInt32 :=
  let x := (((state >>> 18) ^^^ state) >>> 27).toUInt32
  let n := (state >>> 59).toUInt32
  (x >>> n) ||| (x <<< ((32 - n) % 32))

def states (seed : UInt64) : (count : Nat) → List UInt64
  | 0 => []
  | count + 1 => advance seed :: states (advance seed) count

/-- The key of a seed: the next eight words of the generator. -/
def ofSeed (seed : UInt64) : CipherKey :=
  Vector.ofFn fun i => output ((states seed 8).getD i.val 0)

end CipherKey

/-- A place in the keystream of a key. -/
structure RandomSource where
  key : CipherKey
  position : Nat
  deriving DecidableEq, Repr

namespace RandomSource

def ofSeed (seed : Nat) : RandomSource := ⟨.ofSeed seed.toUInt64, 0⟩

end RandomSource

/-- Drawing moves a source on. -/
abbrev Draw := StateM RandomSource

namespace Draw

def word : Draw UInt32 := fun s => (s.key.word s.position, { s with position := s.position + 1 })

/-- Two words, the low one first. -/
def longWord : Draw UInt64 := do
  let low ← word
  let high ← word
  return low.toUInt64 ||| (high.toUInt64 <<< 32)

/-- As many draws as asked for. -/
def times {α : Type} (draw : Draw α) : (count : Nat) → Draw (List α)
  | 0 => pure []
  | count + 1 => do
    let a ← draw
    return a :: (← times draw count)

end Draw

end NeuralNet
