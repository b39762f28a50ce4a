import NeuralNet.Number.Binary

namespace NeuralNet

/-- A single-precision number, kept as its 32 bits so that every word is a value of its own. -/
structure Single where
  bits : UInt32
  deriving DecidableEq, Repr, Inhabited

namespace Single

def datum (a : Single) : Datum := BinaryFormat.single.read a.bits.toNat

def ofDatum (d : Datum) : Single := ⟨(BinaryFormat.single.write d).toUInt32⟩

/-- The bits without the sign. -/
def magnitude (a : Single) : UInt32 := a.bits &&& 0x7fffffff

def isNegative (a : Single) : Bool := 0x80000000 ≤ a.bits

def isNaN (a : Single) : Bool := 0x7f800000 < a.magnitude

def isFinite (a : Single) : Bool := a.magnitude < 0x7f800000

def zero : Single := ⟨0⟩

def one : Single := ⟨0x3f800000⟩

def infinity : Single := ⟨0x7f800000⟩

def negInfinity : Single := ⟨0xff800000⟩

def nan : Single := ⟨0x7fc00000⟩

/-- The NaN of an operation that has no value at its operands. -/
def invalid : Single := ⟨0xffc00000⟩

/-- Position on the number line; both zeros stand at the same place. -/
def key (a : Single) : Int :=
  if a.isNegative then -(a.magnitude.toNat : Int) else a.magnitude.toNat

/-- Position in the total order of all words: negative NaNs first, then the numbers with `-0` before
`+0`, then positive NaNs. -/
def totalKey (a : Single) : Int :=
  if a.isNegative then -(a.magnitude.toNat : Int) - 1 else a.magnitude.toNat

def lt (a b : Single) : Bool := !a.isNaN && !b.isNaN && a.key < b.key

def le (a b : Single) : Bool := !a.isNaN && !b.isNaN && a.key ≤ b.key

/-- Numeric equality: `-0` equals `+0` and a NaN equals nothing. -/
def eqv (a b : Single) : Bool := !a.isNaN && !b.isNaN && a.key == b.key

/-- Every finite or infinite result is the nearest number. A NaN operand is passed on as a quiet
NaN, the left one first. -/
def lift₂ (f : Float32 → Float32 → Float32) (a b : Single) : Single :=
  if a.isNaN then ⟨a.bits ||| 0x00400000⟩
  else if b.isNaN then ⟨b.bits ||| 0x00400000⟩
  else
    let r := f (Float32.ofBits a.bits) (Float32.ofBits b.bits)
    if r.isNaN then invalid else ⟨r.toBits⟩

def lift (f : Float32 → Float32) (a : Single) : Single :=
  if a.isNaN then ⟨a.bits ||| 0x00400000⟩
  else
    let r := f (Float32.ofBits a.bits)
    if r.isNaN then invalid else ⟨r.toBits⟩

instance : Zero Single := ⟨zero⟩

instance : One Single := ⟨one⟩

instance : Add Single := ⟨lift₂ (· + ·)⟩

instance : Sub Single := ⟨lift₂ (· - ·)⟩

instance : Mul Single := ⟨lift₂ (· * ·)⟩

instance : Div Single := ⟨lift₂ (· / ·)⟩

instance : Neg Single := ⟨fun a => ⟨a.bits ^^^ 0x80000000⟩⟩

def exp : Single → Single := lift Float32.exp

def log : Single → Single := lift Float32.log

def tanh : Single → Single := lift Float32.tanh

def sqrt : Single → Single := lift Float32.sqrt

/-- The greater of two; a NaN gives way to a number. -/
def max (a b : Single) : Single :=
  if a.isNaN then b else if b.isNaN then a else if a.key < b.key then b else a

def ofInt (n : Int) : Single := ofDatum (.finite (n < 0) n.natAbs 0)

def ofNat (n : Nat) : Single := ofInt n

/-- Rounds to a whole number, halves away from zero; the sign of zero is kept. -/
def round (a : Single) : Single :=
  match a.datum with
  | .finite negative significand exponent =>
    let (num, den) := Datum.ratio significand exponent
    ofDatum (.finite negative ((2 * num + den) / (2 * den)) 0)
  | d => ofDatum d.quiet

def clamp (a lo hi : Single) : Single :=
  if a.lt lo then lo else if hi.lt a then hi else a

/-- The nearest whole number of a range, halves away from zero; a NaN gives 0. -/
def saturate (lo hi : Int) (a : Single) : Int :=
  match a.datum with
  | .nan _ _ => 0
  | .infinity negative => if negative then lo else hi
  | .finite negative significand exponent =>
    let (num, den) := Datum.ratio significand exponent
    let q : Int := ((2 * num + den) / (2 * den) : Nat)
    Max.max lo (min hi (if negative then -q else q))

/-- The whole number that `a` is, if it is one. -/
def toInt? (a : Single) : Option Int :=
  match a.datum with
  | .finite negative significand exponent =>
    let (num, den) := Datum.ratio significand exponent
    let q : Int := (num / den : Nat)
    if num % den = 0 then some (if negative then -q else q) else none
  | _ => none

/-- The natural number that `a` is, if it is one. -/
def toNat? (a : Single) : Option Nat :=
  match a.toInt? with
  | some (.ofNat n) => some n
  | _ => none

end Single

end NeuralNet
