import NeuralNet.DenseArray.Broadcast
import NeuralNet.DenseArray.Contract

/-!
Normalization per channel. The channel axis is exchanged with the last one and the others are counted
as the rows of a matrix, so that every channel is a column; what is computed of the columns is put back
to the axes in the end.
-/

namespace NeuralNet

namespace Extents

/-- The entries at `axis` and at the end exchanged. -/
def swapLast (axis : Nat) (l : List Nat) : List Nat :=
  (l.set axis (l.getLastD 0)).set (l.length - 1) (l.getD axis 0)

end Extents

namespace DenseArray

variable {α β γ : Type}

/-- The axis exchanged with the last one. -/
def swapAxes [Zero α] (a : DenseArray α) (axis : Nat) : DenseArray α :=
  a.gather (Extents.swapLast axis a.extents) (Extents.swapLast axis)

/-- A matrix with a column for every index of the axis. There are as many entries as there were. -/
def toRows [Zero α] (a : DenseArray α) (axis : Nat) : DenseArray α :=
  let swapped := a.swapAxes axis
  let columns := swapped.extents.getLastD 0
  swapped.relaid [matrixRows swapped.extents columns, columns]

/-- The array of extents `s` that has the matrix for its rows. -/
def fromRows [Zero α] (rows : DenseArray α) (s : Extents) (axis : Nat) : DenseArray α :=
  (rows.relaid (Extents.swapLast axis s)).swapAxes axis

/-- Combines every row with the same values. -/
def withRow [Zero α] [Zero β] (f : α → β → γ) (rows : DenseArray α) (v : DenseArray β) :
    DenseArray γ := broadcastWith rows.extents f rows v

end DenseArray

/-- What normalization keeps for the way back. -/
structure Normalized (α : Type) where
  axis : Nat
  training : Bool
  extents : Extents
  /-- How many elements a channel has, at least 1. -/
  count : α
  scale : DenseArray α
  inverse : DenseArray α
  /-- The normalized values in rows. -/
  standard : DenseArray α
  deriving DecidableEq, Repr

namespace Normalized

open DenseArray (fromRows sumAxis toRows withRow)

variable {α : Type} [Scalar α]

/-- How many elements each column has, at least 1. -/
def columnCount (rows : DenseArray α) : α := Scalar.ofNat (max (rows.extents.headD 0) 1)

/-- The mean of every column. -/
def batchMean (rows : DenseArray α) : DenseArray α :=
  (rows.sumAxis 0).map (· / columnCount rows)

/-- The mean square distance from the mean, for every column. -/
def batchVariance (rows mean : DenseArray α) : DenseArray α :=
  (((rows.withRow (· - ·) mean).map fun d => d * d).sumAxis 0).map (· / columnCount rows)

/-- A running statistic after a batch. -/
def blend (momentum : α) (stored batch : DenseArray α) : DenseArray α :=
  stored.zipWith (fun r v => momentum * r + (1 - momentum) * v) batch

/-- Each element less the mean of its column, over the spread of its column. -/
def of (x mean variance gamma : DenseArray α) (axis : Nat) (epsilon : α) (training : Bool) :
    Normalized α :=
  let rows := x.toRows axis
  let inverse := variance.map fun v => 1 / Scalar.sqrt (v + epsilon)
  let standard := (rows.withRow (· - ·) mean).withRow (· * ·) inverse
  ⟨axis, training, x.extents, columnCount rows, gamma, inverse, standard⟩

/-- Scaled and shifted per channel. -/
def output (n : Normalized α) (beta : DenseArray α) : DenseArray α :=
  ((n.standard.withRow (· * ·) n.scale).withRow (· + ·) beta).fromRows n.extents n.axis

def toGamma (n : Normalized α) (g : DenseArray α) : DenseArray α :=
  ((g.toRows n.axis).zipWith (· * ·) n.standard).sumAxis 0

def toBeta (n : Normalized α) (g : DenseArray α) : DenseArray α := (g.toRows n.axis).sumAxis 0

/-- What a gradient gives the input. In training the mean and the spread depend on the input too. -/
def toInput (n : Normalized α) (g : DenseArray α) : DenseArray α :=
  let d := (g.toRows n.axis).withRow (· * ·) n.scale
  if n.training then
    let total := d.sumAxis 0
    let moment := (d.zipWith (· * ·) n.standard).sumAxis 0
    let rest := ((d.map (· * n.count)).withRow (· - ·) total).zipWith (· - ·)
      (n.standard.withRow (· * ·) moment)
    ((rest.withRow (· * ·) n.inverse).map (· / n.count)).fromRows n.extents n.axis
  else (d.withRow (· * ·) n.inverse).fromRows n.extents n.axis

end Normalized

end NeuralNet
