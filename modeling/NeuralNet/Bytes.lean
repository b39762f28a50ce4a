namespace NeuralNet

/-- The bytes of a natural number, lowest first. -/
def littleEndian : (width : Nat) → Nat → List UInt8
  | 0, _ => []
  | width + 1, n => (n % 256).toUInt8 :: littleEndian width (n / 256)

/-- The number whose bytes these are, lowest first. -/
def ofLittleEndian : List UInt8 → Nat
  | [] => 0
  | b :: rest => b.toNat + 256 * ofLittleEndian rest

/-- How many numbers there are of so many bytes. -/
def wordCount (width : Nat) : Nat := 1 <<< (8 * width)

/-- A signed number of so many bytes in two's complement. -/
def twosComplement (width : Nat) (i : Int) : Nat := (i % wordCount width).toNat

/-- The signed number with this two's complement. -/
def ofTwosComplement (width : Nat) (n : Nat) : Int :=
  if 2 * n < wordCount width then n else n - wordCount width

/-- The first `count` pieces of `width` elements each. -/
def pieces {α : Type} (width : Nat) : (count : Nat) → List α → List (List α)
  | 0, _ => []
  | count + 1, xs => xs.take width :: pieces width count (xs.drop width)

@[simp]
theorem length_littleEndian (width n : Nat) : (littleEndian width n).length = width := by
  induction width generalizing n with
  | zero => rfl
  | succ width ih => simp [littleEndian, ih]

theorem wordCount_zero : wordCount 0 = 1 := rfl

theorem wordCount_succ (width : Nat) : wordCount (width + 1) = 256 * wordCount width := by
  simp only [wordCount, Nat.one_shiftLeft, Nat.mul_add, Nat.pow_add]
  omega

theorem ofLittleEndian_littleEndian (width n : Nat) :
    ofLittleEndian (littleEndian width n) = n % wordCount width := by
  induction width generalizing n with
  | zero => simp [littleEndian, ofLittleEndian, wordCount_zero, Nat.mod_one]
  | succ width ih =>
    have hb : (n % 256).toUInt8.toNat = n % 256 := by
      simp
    rw [littleEndian, ofLittleEndian, ih, hb, wordCount_succ, Nat.mod_mul]

theorem littleEndian_ofLittleEndian (bytes : List UInt8) :
    littleEndian bytes.length (ofLittleEndian bytes) = bytes := by
  induction bytes with
  | nil => rfl
  | cons b rest ih =>
    have hb : b.toNat < 256 := b.toNat_lt
    have h1 : (b.toNat + 256 * ofLittleEndian rest) % 256 = b.toNat := by omega
    have h2 : (b.toNat + 256 * ofLittleEndian rest) / 256 = ofLittleEndian rest := by omega
    simp only [List.length_cons, littleEndian, ofLittleEndian, h1, h2, ih]
    simp

theorem ofLittleEndian_lt (bytes : List UInt8) : ofLittleEndian bytes < wordCount bytes.length := by
  induction bytes with
  | nil => simp [ofLittleEndian, wordCount_zero]
  | cons b rest ih =>
    have hb : b.toNat < 256 := b.toNat_lt
    simp only [ofLittleEndian, List.length_cons, wordCount_succ]
    omega

end NeuralNet
