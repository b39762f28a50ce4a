import NeuralNet.Layer.Basic
import NeuralNet.Shape.Check
import NeuralNet.Window

/-!
What a layer makes of the shapes of its inputs: the shapes of its outputs, and the extents that its
parameters need.
-/

namespace NeuralNet.Layer

/-- The only input shape of a layer. -/
def singleShape (block : String) : List Shape → Except Error Shape
  | [s] => .ok s
  | inputs => .error (.invalidArgument (.inputShapeCount block inputs.length))

/-- The last axis of the input of a linear layer. -/
def linearFeatures (inputs : List Shape) : Except Error (Shape × Nat) := do
  let s ← singleShape "linear" inputs
  if s.rank < 2 then
    throw (.shapeMismatch "linear input" (.words "(batch, ..., in)") (.words s.text))
  return (s, ← s.requireDim (s.rank - 1) "linear input")

def convInput (c : ConvLayer) (inputs : List Shape) : Except Error Shape := do
  let s ← singleShape c.name inputs
  s.expectRank (c.kernel.length + 2) c.name
  return s

/-- How many windows fit on one axis of the input. -/
def convExtent (c : ConvLayer) (s : Shape) (axis : Nat) : Except Error Nat := do
  let extent ← s.requireDim (axis + 2) c.name
  let kernel := c.kernel.getD axis 0
  match windowCount? extent kernel (c.stride.getD axis 0) (c.padding.getD axis 0) with
  | some n => return n
  | none =>
    throw (.shapeMismatch s!"{c.name} spatial axis {axis}"
      (.words s!"at least {kernel} after padding") (.count extent))

/-- The extent of the channel axis, which is not the batch axis. -/
def normChannels (axis : Nat) (inputs : List Shape) : Except Error (Shape × Nat) := do
  let s ← singleShape "batch_norm" inputs
  if axis = 0 ∨ s.rank ≤ axis then throw (.invalidArgument (.channelAxis axis s))
  return (s, ← s.requireDim axis "batch_norm")

/-- The last axis of an input of batches of sequences. -/
def recurrentFeatures (r : RecurrentLayer) (inputs : List Shape) : Except Error (Shape × Nat) := do
  let s ← singleShape r.cell.name inputs
  s.expectRank 3 "recurrent input (batch, time, features)"
  return (s, ← s.requireDim 2 r.cell.name)

def recurrentOutputs (r : RecurrentLayer) (inputs : List Shape) : Except Error (List Shape) := do
  let (s, _) ← recurrentFeatures r inputs
  let time ← s.requireDim 1 r.cell.name
  let sequence := s.withTail [time, r.stateSize]
  if r.returnState then
    match s.batch with
    | none => throw (.invalidArgument (.stateBatch r.cell.name))
    | some batch =>
      let state := Shape.ofExtents [r.depth, batch, r.stateSize]
      return sequence :: state :: if r.cell.hasMemory then [state] else []
  else return [sequence]

def embeddingOutput (width : Nat) (inputs : List Shape) : Except Error (List Shape) := do
  let s ← singleShape "embedding" inputs
  if s.rank = 0 then return [Shape.ofExtents [width]]
  return [s.withTail (s.tail ++ [width])]

/-- The shapes of the outputs. -/
def outputShapes (l : Layer) (inputs : List Shape) : Except Error (List Shape) :=
  match l with
  | linear units _ => do
    let (s, _) ← linearFeatures inputs
    return [s.withTail (s.tail.dropLast ++ [units])]
  | conv c => do
    let s ← convInput c inputs
    let extents ← (List.range c.kernel.length).mapM (convExtent c s)
    return [s.withTail (c.filters :: extents)]
  | batchNorm axis _ _ => do
    let (s, _) ← normChannels axis inputs
    return [s]
  | dropout _ => do return [← singleShape "dropout" inputs]
  | activation a => do return [← singleShape a.name inputs]
  | flatten => do
    let s ← singleShape "flatten" inputs
    if s.rank = 0 then throw (.invalidArgument (.rankZero "flatten" "input"))
    return [s.withTail [Extents.size s.tail]]
  | embedding _ width | wordEmbedding _ width => embeddingOutput width inputs
  | recurrent r => recurrentOutputs r inputs

/-- The height and the rest in a name such as `l0_i2h_bias`. A plus sign before the height is
accepted. -/
def cellField? (name : String) : Option (Nat × String) :=
  match name.toList with
  | 'l' :: rest =>
    let height := rest.takeWhile (· ≠ '_')
    match rest.dropWhile (· ≠ '_') with
    | '_' :: field =>
      let digits := if height.head? = some '+' then height.drop 1 else height
      if !digits.isEmpty && digits.all Char.isDigit then
        some (digits.foldl (fun n c => 10 * n + (c.toNat - 48)) 0, String.ofList field)
      else none
    | _ => none
  | _ => none

/-- The extents of a parameter of a recurrent layer: all gates stand below each other. -/
def recurrentShape (r : RecurrentLayer) (name : String) (inputs : List Shape) :
    Except Error Extents :=
  let unknown := Error.invalidArgument (.unknownParameter r.cell.name name)
  match cellField? name with
  | none => .error unknown
  | some (height, field) => do
    if r.depth ≤ height then throw unknown
    let rows := r.cell.gates * r.stateSize
    let width ← if height = 0 then (·.2) <$> recurrentFeatures r inputs else pure r.stateSize
    match field with
    | "i2h_weight" => return [rows, width]
    | "h2h_weight" => return [rows, r.stateSize]
    | "i2h_bias" | "h2h_bias" => return [rows]
    | _ => throw unknown

/-- The extents that a parameter needs for given inputs. -/
def parameterShape (l : Layer) (name : String) (inputs : List Shape) : Except Error Extents :=
  let unknown (block : String) := Error.invalidArgument (.unknownParameter block name)
  match l with
  | linear units _ =>
    match name with
    | "weight" => do return [units, (← linearFeatures inputs).2]
    | "bias" => .ok [units]
    | _ => .error (unknown "linear")
  | conv c =>
    match name with
    | "weight" => do
      let s ← convInput c inputs
      return c.filters :: (← s.requireDim 1 c.name) :: c.kernel
    | "bias" => .ok [c.filters]
    | _ => .error (unknown c.name)
  | batchNorm axis _ _ =>
    match name with
    | "gamma" | "beta" | "running_mean" | "running_var" => do
      return [(← normChannels axis inputs).2]
    | _ => .error (unknown "batch_norm")
  | embedding rows width | wordEmbedding rows width =>
    match name with
    | "weight" => .ok [rows, width]
    | _ => .error (unknown "embedding")
  | recurrent r => recurrentShape r name inputs
  | dropout _ | flatten | activation _ =>
    .error (.invalidArgument (.undeclaredParameter l.name name))

end NeuralNet.Layer
