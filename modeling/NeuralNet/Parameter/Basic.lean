import NeuralNet.Initializer
import NeuralNet.Record

/-!
Parameters. A slot is declared by its name and its role; it gets extents, an element type and values
once, and keeps the first two for good.
-/

namespace NeuralNet

inductive ParameterKind where
  | weight
  | bias
  | gamma
  | beta
  | runningMean
  | runningVar
  deriving DecidableEq, Repr

namespace ParameterKind

def all : List ParameterKind := [.weight, .bias, .gamma, .beta, .runningMean, .runningVar]

def name : ParameterKind → String
  | weight => "weight"
  | bias => "bias"
  | gamma => "gamma"
  | beta => "beta"
  | runningMean => "running_mean"
  | runningVar => "running_var"

def ofName? (name : String) : Option ParameterKind := all.find? (·.name == name)

def label : ParameterKind → String
  | weight => "Weight"
  | bias => "Bias"
  | gamma => "Gamma"
  | beta => "Beta"
  | runningMean => "RunningMean"
  | runningVar => "RunningVar"

/-- Weights have no initializer of their own; shifts start at 0 and scales at 1. -/
def initializer : ParameterKind → Option Initializer
  | weight => none
  | bias | beta | runningMean => some .zeros
  | gamma | runningVar => some .ones

/-- Running statistics follow the data, not the gradient. -/
def isTrainable : ParameterKind → Bool
  | runningMean | runningVar => false
  | _ => true

end ParameterKind

/-- What a resolved parameter holds. -/
structure Content (α : Type) where
  type : DataType
  data : DenseArray α
  grad : Option (DenseArray α)
  /-- Whether the array collects a gradient. -/
  requiresGrad : Bool
  deriving DecidableEq, Repr

/-- A parameter with all its state. -/
structure Slot (α : Type) where
  name : String
  kind : ParameterKind
  trainable : Bool
  initializer : Option Initializer
  content : Option (Content α)
  deriving DecidableEq, Repr

namespace Content

variable {α : Type} [Scalar α]

/-- Every value replaced by the nearest one of the element type. -/
def quantized (type : DataType) (data : DenseArray α) : DenseArray α := data.map type.quantize

/-- New values, without a gradient. -/
def ofArray (type : DataType) (data : DenseArray α) (requiresGrad : Bool) : Content α :=
  ⟨type, quantized type data, none, requiresGrad⟩

end Content

namespace Slot

variable {α : Type}

def declare (name : String) (kind : ParameterKind) : Slot α :=
  ⟨name, kind, kind.isTrainable, none, none⟩

def isResolved (p : Slot α) : Bool := p.content.isSome

def extents (p : Slot α) : Option Extents := p.content.map (·.data.extents)

def type (p : Slot α) : Option DataType := p.content.map (·.type)

/-- The content, or the complaint that there is none. -/
def require (p : Slot α) : Except Error (Content α) :=
  match p.content with
  | some c => .ok c
  | none => .error (.uninitialized (.parameterShape p.name))

/-- An initializer of its own, for a parameter without content. -/
def withInitializer (p : Slot α) (i : Initializer) : Slot α :=
  if p.isResolved then p else { p with initializer := some i }

/-- Whether the parameter is resolved already. If it is, extents and type have to be its own. -/
def checkCompatible (p : Slot α) (s : Extents) (type : DataType) : Except Error Bool :=
  match p.content with
  | none => .ok false
  | some c =>
    if c.data.extents ≠ s then
      .error (.shapeMismatch s!"parameter `{p.name}`" (.extents c.data.extents) (.extents s))
    else if c.type ≠ type then
      .error (.dataTypeMismatch s!"parameter `{p.name}`" c.type type)
    else .ok true

/-- Trainable or frozen, which the array is told if there is one; freezing drops the gradient. -/
def setTrainable (p : Slot α) (trainable : Bool) : Slot α :=
  { p with
    trainable
    content := p.content.map fun c =>
      { c with requiresGrad := trainable, grad := if trainable then c.grad else none } }

variable [Scalar α]

/-- First values, the nearest of the element type, in an array that is told whether the parameter is
trainable. -/
def fill (p : Slot α) (type : DataType) (data : DenseArray α) : Slot α :=
  { p with content := some (.ofArray type data p.trainable) }

/-- Takes new values, the nearest of the element type, and drops the gradient. -/
def setArray (p : Slot α) (type : DataType) (data : DenseArray α) : Except Error (Slot α) := do
  if ← p.checkCompatible data.extents type then
    return { p with
      content := p.content.map fun c =>
        { c with data := Content.quantized type data, grad := none } }
  return p.fill type data

/-- The initializer that an unresolved parameter is filled by: its own, else that of its kind, else
the one given. -/
def chooseInitializer (p : Slot α) (fallback : Initializer) : Initializer :=
  (p.initializer.orElse fun _ => p.kind.initializer).getD fallback

/-- Draws the first values. A resolved parameter stays as it is. -/
def resolve (p : Slot α) (fallback : Initializer) (s : Extents) (type : DataType)
    (source : RandomSource) : Except Error (Slot α × RandomSource) := do
  if ← p.checkCompatible s type then return (p, source)
  let (data, source) ← (p.chooseInitializer fallback).generate s source
  return (p.fill type (data.map Scalar.ofSingle), source)

/-- Values brought back to the element type after they were computed with. -/
def requantize (p : Slot α) : Slot α :=
  { p with content := p.content.map fun c => { c with data := Content.quantized c.type c.data } }

end Slot

namespace Slot

/-- The record of a resolved parameter under a name. -/
def toRecord (p : Slot Single) (key : String) : Except Error Record := do
  let c ← p.require
  return ⟨key, c.data.extents, c.type, c.data.toList⟩

/-- The parameter without its values. -/
def text (p : Slot Single) : String :=
  let optional (t : Option String) := (t.map fun t => "Some(" ++ t ++ ")").getD "None"
  "Parameter \x7b name: " ++ Text.escaped p.name ++ ", kind: " ++ p.kind.label ++ ", shape: " ++
    optional (p.extents.map Extents.text) ++ ", data_type: " ++
    optional (p.type.map DataType.label) ++ " \x7d"

end Slot

end NeuralNet
