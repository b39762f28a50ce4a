import NeuralNet.DenseArray.Basic
import NeuralNet.Random.Distribution

namespace NeuralNet

/-- How a parameter gets its first values. -/
inductive Initializer where
  | zeros
  | ones
  | constant (value : Single)
  | uniform (scale : Single)
  | normal (sigma : Single)
  | xavierUniform
  | kaimingNormal
  deriving DecidableEq, Repr

namespace Initializer

def isNonnegative (a : Single) : Bool := a.isFinite && Single.zero.le a

/-- Whether the settings make sense. -/
def validate : Initializer → Except Error Unit
  | uniform scale =>
    if isNonnegative scale then .ok () else .error (.invalidSetting (.uniformScale scale))
  | normal sigma =>
    if isNonnegative sigma then .ok () else .error (.invalidSetting (.normalSigma sigma))
  | constant value =>
    if value.isFinite then .ok () else .error (.invalidSetting (.constantValue value))
  | _ => .ok ()

/-- How many values feed one output of a weight, and how many one input feeds. A weight is laid out
output first, then input, then the window. -/
def fans : Extents → Nat × Nat
  | [] => (1, 1)
  | [n] => (n, n)
  | out :: input :: window => (input * Extents.size window, out * Extents.size window)

def fill (s : Extents) (draw : Draw Single) : Draw (DenseArray Single) := fun source =>
  let (values, source) := (draw.times s.size).run source
  match DenseArray.ofList s values with
  | .ok a => (a, source)
  | .error _ => (DenseArray.full s .zero, source)

/-- Uniform values; a scale of 0 draws nothing. -/
def fillUniform (s : Extents) (scale : Single) : Draw (DenseArray Single) :=
  if scale.eqv .zero then pure (DenseArray.full s .zero) else fill s (.uniform scale)

/-- The values of a valid initializer. -/
def draw (s : Extents) : Initializer → Draw (DenseArray Single)
  | zeros => pure (DenseArray.full s .zero)
  | ones => pure (DenseArray.full s .one)
  | constant value => pure (DenseArray.full s value)
  | uniform scale => fillUniform s scale
  | normal sigma => fill s (.normal sigma)
  | xavierUniform =>
    let (fanIn, fanOut) := fans s
    let total := Single.ofNat fanIn + Single.ofNat fanOut
    fillUniform s (.sqrt (.ofNat 6 / total.max .one))
  | kaimingNormal => fill s (.normal (.sqrt (.ofNat 2 / (Single.ofNat (fans s).1).max .one)))

/-- An array of first values. Nothing is drawn if the settings make no sense. -/
def generate (i : Initializer) (s : Extents) (source : RandomSource) :
    Except Error (DenseArray Single × RandomSource) := do
  i.validate
  return (i.draw s).run source

end Initializer

end NeuralNet
