import NeuralNet.Tape.Workspace

namespace NeuralNet

/-- How far a prediction is from its label. -/
inductive Loss where
  | l2
  | softmaxCrossEntropy
  deriving DecidableEq, Repr

namespace Loss

def all : List Loss := [.l2, .softmaxCrossEntropy]

def name : Loss → String
  | l2 => "l2"
  | softmaxCrossEntropy => "softmax_cross_entropy"

def ofName? (name : String) : Option Loss := all.find? (·.name == name)

variable {α : Type} [Scalar α]

open Run (check record value)

/-- The mean squared difference; the label may have other extents but not another size. -/
def meanSquare (prediction label : Tensor) : Run α Tensor := do
  let out ← value prediction
  let target ← value label
  if target.size ≠ out.size then
    throw (.shapeMismatch "l2 label" (.extents out.extents) (.extents target.extents))
  record (.meanSquare prediction out target) (.scalar (out.meanSquare target))

/-- The mean cross entropy of the rows. -/
def crossEntropy (prediction label : Tensor) : Run α Tensor := do
  let logits ← value prediction
  match logits.extents.getLast? with
  | none =>
    throw (.shapeMismatch "softmax cross entropy logits" (.words "rank >= 1") (.words "rank 0"))
  | some classes =>
    let rows := Extents.size logits.extents.dropLast
    let targets ← check ((← value label).denseTargets rows classes)
    record (.crossEntropy prediction logits targets) (.scalar (logits.crossEntropy targets))

/-- The loss of a prediction as a node of the tape. -/
def apply : Loss → (prediction label : Tensor) → Run α Tensor
  | l2 => meanSquare
  | softmaxCrossEntropy => crossEntropy

/-- The part of the rows that are classified as the label says. -/
def accuracy (prediction label : Tensor) : Run α α := do
  check ((← value prediction).accuracy (← value label))

end Loss

end NeuralNet
