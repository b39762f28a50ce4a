import NeuralNet.DenseArray.Basic

/-!
Arrays as rows along their last axis.
-/

namespace NeuralNet.DenseArray

open Scalar (sumUpTo)

variable {α : Type}

/-- The extent of the last axis; an array without axes is one row of one value. -/
def width (a : DenseArray α) : Nat := a.extents.getLast?.getD 1

def row [Zero α] (a : DenseArray α) (r : Nat) : List α :=
  (List.range a.width).map fun j => a.entry (r * a.width + j)

def rowCount (a : DenseArray α) : Nat := a.size / a.width

/-- Combines every value with what `stat` makes of its row. -/
def perRow [Zero α] (stat : List α → α) (f : α → α → α) (a : DenseArray α) : DenseArray α :=
  let stats := Array.ofFn fun r : Fin a.rowCount => stat (a.row r)
  ⟨a.extents, Array.ofFn fun k : Fin a.extents.size =>
    f (stats.getD (k / a.width) 0) (a.entry k), by simp⟩

/-- The sum of a row. -/
def rowSum [Zero α] [Add α] (row : List α) : α := row.foldl (· + ·) 0

variable [Scalar α]

/-- The logarithm of the sum of the exponentials of a row, taken relative to its peak. -/
def logSumExp (row : List α) : α :=
  let m := Scalar.peak row
  Scalar.log (rowSum (row.map fun v => Scalar.exp (v - m))) + m

/-- Each value less the logarithm of the sum of the exponentials of its row. -/
def logSoftmax (a : DenseArray α) : DenseArray α := a.perRow logSumExp fun l v => v - l

/-- What a gradient of `logSoftmax` gives its input, from the result `y`: the gradient less the
share of each value in the sum of its row. -/
def logSoftmaxGradient (y g : DenseArray α) : DenseArray α :=
  let totals := Array.ofFn fun r : Fin y.rowCount => rowSum (g.row r)
  ⟨y.extents, Array.ofFn fun k : Fin y.extents.size =>
    g.entry k - Scalar.exp (y.entry k) * totals.getD (k / y.width) 0, by simp⟩

/-- The exponentials of a row over their sum. -/
def softmaxRow (row : List α) : List α :=
  let m := Scalar.peak row
  let es := row.map fun v => Scalar.exp (v - m)
  es.map (· / rowSum es)

end NeuralNet.DenseArray
