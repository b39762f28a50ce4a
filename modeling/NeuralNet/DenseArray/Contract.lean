import NeuralNet.DenseArray.Basic

/-!
Contraction over the last axis: the axes in front of it are counted as the rows of one matrix, and put
back after the product.
-/

namespace NeuralNet.DenseArray

open Scalar (sumUpTo)

variable {α : Type} [Zero α] [Add α] [Mul α]

/-- The product of two matrices, given by what they have in each row and column. -/
def product (rows terms columns : Nat) (a b : Nat → Nat → α) : DenseArray α :=
  generate [rows, columns] fun i => sumUpTo terms fun t => a (i.headD 0) t * b t (i.getLastD 0)

/-- How many rows of `k` entries an array has; without an entry in a row there are none. -/
def matrixRows (s : Extents) (k : Nat) : Nat := if k = 0 then 0 else s.size / k

/-- Every row of `a` times every row of `b`. -/
def matmul (a b : DenseArray α) : Except Error (DenseArray α) :=
  match b.extents with
  | [n, k] =>
    match a.extents.getLast? with
    | none => .error (.shapeMismatch "matmul lhs" (.words "[..., K]") (.extents a.extents))
    | some last =>
      if last ≠ k then
        .error (.shapeMismatch "matmul contraction" (.words s!"K = {k}") (.extents a.extents))
      else do
        let m := matrixRows a.extents k
        let left ← a.regroup [m, k]
        let result := product m k n (fun r t => left.get [r, t]) fun t c => b.get [c, t]
        let s : Extents := a.extents.dropLast ++ [n]
        if s.addressable then result.regroup s else throw (.array .incompatibleExtents)
  | _ => .error (.shapeMismatch "matmul rhs" (.words "[N, K]") (.extents b.extents))

/-- What a gradient of the contraction gives the left operand. -/
def contractLeft (g a b : DenseArray α) : Except Error (DenseArray α) := do
  let n := b.extents.headD 0
  let k := b.extents.getLastD 0
  let m := matrixRows a.extents k
  let rows ← g.regroup [m, n]
  (product m n k (fun r t => rows.get [r, t]) fun t c => b.get [t, c]).regroup a.extents

/-- What a gradient of the contraction gives the right operand. -/
def contractRight (g a b : DenseArray α) : Except Error (DenseArray α) := do
  let n := b.extents.headD 0
  let k := b.extents.getLastD 0
  let m := matrixRows a.extents k
  let rows ← g.regroup [m, n]
  let left ← a.regroup [m, k]
  return product n m k (fun r t => rows.get [t, r]) fun t c => left.get [t, c]

end NeuralNet.DenseArray
