import NeuralNet.DenseArray.Rows

/-!
Losses and accuracy on arrays. Labels for classification are one row of weights for every row of the
prediction, or one class number for every row.
-/

namespace NeuralNet.DenseArray

variable {α : Type} [Scalar α]

/-- The mean of the squared differences. -/
def meanSquare (out target : DenseArray α) : α :=
  (out.zipWith (fun o t => (o - t) * (o - t)) target).sum / Scalar.ofNat (max out.size 1)

def meanSquareGradient (out target g : DenseArray α) : DenseArray α :=
  let factor := Scalar.ofNat 2 / Scalar.ofNat (max out.size 1) * g.sum
  out.zipWith (fun o t => (o - t) * factor) target

/-- The class that a label names. -/
def classOf (classes : Nat) (label : α) : Except Error Nat :=
  match Scalar.toNat? label with
  | some c =>
    if c < classes then .ok c
    else .error (.invalidArgument (.classIndex (Scalar.text label) classes))
  | none => .error (.invalidArgument (.classIndex (Scalar.text label) classes))

/-- A row of weights for each of `batch` rows. -/
def denseTargets (label : DenseArray α) (batch classes : Nat) : Except Error (DenseArray α) :=
  if label.extents = [batch, classes] then .ok label
  else if label.size ≠ batch then
    .error (.shapeMismatch "softmax cross entropy label"
      (.words s!"[{batch}, {classes}] or {batch} class indices") (.extents label.extents))
  else do
    let chosen := (← label.toList.mapM (classOf classes)).toArray
    return generate [batch, classes] fun i =>
      if chosen[i.headD 0]? = some (i.getLastD 0) then 1 else 0

/-- The weighted distance of a row from certainty. -/
def rowEntropy (logits targets : List α) : α :=
  let m := Scalar.peak logits
  let norm := m + Scalar.log (rowSum (logits.map fun l => Scalar.exp (l - m)))
  rowSum ((logits.zip targets).filterMap fun (l, t) =>
    if Scalar.isZero t then none else some (t * (norm - l)))

/-- The mean over the rows of their entropies. -/
def crossEntropy (logits targets : DenseArray α) : α :=
  Scalar.sumUpTo logits.rowCount (fun r => rowEntropy (logits.row r) (targets.row r)) /
    Scalar.ofNat (max logits.rowCount 1)

/-- What a gradient gives the logits: softmax times the weight of the row, less the targets. -/
def crossEntropyGradient (logits targets g : DenseArray α) : DenseArray α :=
  let factor := g.sum / Scalar.ofNat (max logits.rowCount 1)
  let soft := Array.ofFn fun r : Fin logits.rowCount => (softmaxRow (logits.row r)).toArray
  let mass := Array.ofFn fun r : Fin logits.rowCount => rowSum (targets.row r)
  ⟨logits.extents, Array.ofFn fun k : Fin logits.extents.size =>
    let r := k / logits.width
    (((soft.getD r #[]).getD (k % logits.width) 0) * mass.getD r 0 - targets.entry k) * factor, by
      simp⟩

/-- The part of the rows whose greatest value stands where the label's does. -/
def accuracy (prediction label : DenseArray α) : Except Error α := do
  let classes := prediction.width
  let batch := prediction.size / max classes 1
  let targets ← denseTargets label batch classes
  let hits := (List.range batch).countP fun r =>
    Scalar.argmax (prediction.row r) == Scalar.argmax (targets.row r)
  return Scalar.ofNat hits / Scalar.ofNat (max batch 1)

end NeuralNet.DenseArray
