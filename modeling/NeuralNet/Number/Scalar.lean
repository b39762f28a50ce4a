import NeuralNet.DataType

namespace NeuralNet

/-- The numbers that arrays hold. Sums and products need no more than the arithmetic; the other
fields are what layers, losses and storage ask of a number. -/
class Scalar (α : Type) extends Zero α, One α, Add α, Sub α, Mul α, Div α, Neg α where
  ofNat : Nat → α
  ofSingle : Single → α
  exp : α → α
  log : α → α
  sqrt : α → α
  tanh : α → α
  sigmoid : α → α
  /-- The number itself if it is positive, else 0. -/
  relu : α → α
  /-- Whether the number is at most 0. -/
  isNonpos : α → Bool
  isZero : α → Bool
  /-- The greatest of a row. -/
  peak : List α → α
  /-- Where the greatest of a row first stands. -/
  argmax : List α → Nat
  /-- The mean of numbers that count several times each; none if nothing counts. -/
  weightedMean : List (α × Nat) → Option α
  /-- The natural number that this is, if it is one. -/
  toNat? : α → Option Nat
  /-- The nearest value of an element type. -/
  narrow : DataType → α → α
  text : α → String

namespace DataType

/-- The nearest value of the type; the two wide floating-point types hold every value. -/
def quantize {α : Type} [Scalar α] (t : DataType) (a : α) : α :=
  match t with
  | .float32 | .float64 => a
  | t => Scalar.narrow t a

end DataType

namespace Scalar

variable {α : Type}

/-- `0 + f 0 + f 1 + ... + f (n - 1)`, from left to right. -/
def sumUpTo [Zero α] [Add α] : Nat → (Nat → α) → α
  | 0, _ => 0
  | n + 1, f => sumUpTo n f + f n

/-- The power `a ^ n` by repeated squaring; `acc` collects the odd factors. -/
def powAux [Mul α] (n : Nat) (a acc : α) : α :=
  let acc := if n % 2 = 1 then acc * a else acc
  if _h : n / 2 = 0 then acc else powAux (n / 2) (a * a) acc
termination_by n
decreasing_by omega

def pow [One α] [Mul α] (a : α) (n : Nat) : α := powAux n a 1

end Scalar

namespace Single

def peak (row : List Single) : Single := row.foldl max negInfinity

/-- The first position whose number exceeds all before it; nothing exceeds a NaN or is exceeded by
one, and minus infinity is exceeded by every other number. -/
def argmax (row : List Single) : Nat :=
  (row.zipIdx.foldl (fun (best : Nat × Single) (v, i) => if best.2.lt v then (i, v) else best)
    (0, negInfinity)).1

/-- The mean in double precision; a NaN among the numbers is passed on. -/
def weightedMean (values : List (Single × Nat)) : Option Single :=
  let wide (a : Single) : Float :=
    Float.ofBits (BinaryFormat.convert .single .double a.bits.toNat).toUInt64
  let count := (values.map (·.2)).foldl (· + ·) 0
  if count = 0 then none
  else
    match values.find? (·.1.isNaN) with
    | some (a, _) => some a
    | none =>
      let total := values.foldl (fun t (a, n) => t + wide a * Float.ofNat n) 0
      let mean := total / Float.ofNat count
      some (if mean.isNaN then invalid
        else ⟨(BinaryFormat.convert .double .single mean.toBits.toNat).toUInt32⟩)

instance : Scalar Single where
  ofNat := ofNat
  ofSingle := id
  exp := exp
  log := log
  sqrt := sqrt
  tanh := tanh
  sigmoid x := 1 / (1 + exp (-x))
  relu x := max x 0
  isNonpos x := x.le 0
  isZero x := x.eqv 0
  peak := peak
  argmax := argmax
  weightedMean := weightedMean
  toNat? := toNat?
  narrow := narrow
  text := text

end Single

end NeuralNet
