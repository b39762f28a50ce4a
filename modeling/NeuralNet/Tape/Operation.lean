import NeuralNet.DenseArray.Broadcast
import NeuralNet.DenseArray.Channels
import NeuralNet.DenseArray.Contract
import NeuralNet.DenseArray.Convolve
import NeuralNet.DenseArray.Loss
import NeuralNet.DenseArray.Rearrange

/-!
What was computed, in enough detail to send a gradient back. `Operation.pullback` says what a
gradient of the result gives each input; every operation is linear in that gradient.
-/

namespace NeuralNet

/-- A handle on an array: the value of a parameter, or a node of the tape. -/
inductive Tensor where
  | weight (slot : Nat)
  | node (id : Nat)
  deriving DecidableEq, Repr, Inhabited

/-- A computed result: the inputs it was computed from, and what of the computation the way back
needs. Factors and rectified inputs are looked up again on the way back; all else is kept here. -/
inductive Operation (α : Type) where
  | add (a b : Tensor)
  | sub (a b : Tensor)
  | mul (a b : Tensor)
  | scale (a : Tensor) (factor : α)
  | sum (a : Tensor)
  | relu (a : Tensor)
  | sigmoid (a : Tensor) (result : DenseArray α)
  | tanh (a : Tensor) (result : DenseArray α)
  | logSoftmax (a : Tensor) (result : DenseArray α)
  /-- Every entry of the result is an entry of the input. -/
  | rearrange (a : Tensor) (source : Extents) (r : Rearrangement)
  | concat (parts : List Tensor) (axis : Nat) (lengths : List Nat)
  | matmul (a b : Tensor) (left right : DenseArray α)
  | convolve (x w : Tensor) (bias : Option Tensor) (c : Convolution) (input weight : DenseArray α)
  | normalize (x gamma beta : Tensor) (n : Normalized α)
  | mask (a : Tensor) (m : DenseArray α)
  | meanSquare (a : Tensor) (out target : DenseArray α)
  | crossEntropy (a : Tensor) (logits targets : DenseArray α)

namespace Operation

variable {α : Type}

/-- The inputs that a gradient goes back to, in the order in which it is sent. -/
def inputs : Operation α → List Tensor
  | add a b | sub a b | mul a b | matmul a b _ _ => [a, b]
  | scale a _ | sum a | relu a | sigmoid a _ | tanh a _ | logSoftmax a _ | rearrange a _ _
  | mask a _ | meanSquare a _ _ | crossEntropy a _ _ => [a]
  | concat parts _ _ => parts
  | convolve x w bias _ _ _ => [x, w] ++ bias.toList
  | normalize x gamma beta _ => [x, gamma, beta]

variable [Scalar α]

/-- What a gradient `g` of the result gives the input at a position. `value` looks up the array that
a handle has now. -/
def pullback (value : Tensor → DenseArray α) (op : Operation α) (position : Nat)
    (g : DenseArray α) : Except Error (DenseArray α) :=
  match op, position with
  | add a _, 0 => g.reduceTo (value a).extents
  | add _ b, _ => g.reduceTo (value b).extents
  | sub a _, 0 => g.reduceTo (value a).extents
  | sub _ b, _ => (g.map (-·)).reduceTo (value b).extents
  | mul a b, 0 => (g.times (value b) (value a).extents).reduceTo (value a).extents
  | mul a b, _ => (g.times (value a) (value b).extents).reduceTo (value b).extents
  | scale _ factor, _ => .ok (g.map (· * factor))
  | sum a, _ => .ok (.full (value a).extents (g.entry 0))
  | relu a, _ => .ok (g.zipWith (fun d x => if Scalar.isNonpos x then 0 else d) (value a))
  | sigmoid _ y, _ => .ok (g.zipWith (fun d y => d * y * (1 - y)) y)
  | tanh _ y, _ => .ok (g.zipWith (fun d y => d * (1 - y * y)) y)
  | logSoftmax _ y, _ => .ok (y.logSoftmaxGradient g)
  | rearrange _ source r, _ => g.bringBack source r.back
  | concat _ axis lengths, k =>
    .ok (g.rearrange
      (.window g.extents axis (DenseArray.partStart lengths k) (lengths.getD k 0)))
  | matmul _ _ left right, 0 => g.contractLeft left right
  | matmul _ _ left right, _ => g.contractRight left right
  | convolve _ _ _ c _ weight, 0 => .ok (c.toInput g weight)
  | convolve _ _ _ c input _, 1 => .ok (c.toWeight g input)
  | convolve _ _ _ c _ _, _ => .ok (c.toBias g)
  | normalize _ _ _ n, 0 => .ok (n.toInput g)
  | normalize _ _ _ n, 1 => .ok (n.toGamma g)
  | normalize _ _ _ n, _ => .ok (n.toBeta g)
  | mask _ m, _ => .ok (g.zipWith (· * ·) m)
  | meanSquare _ out target, _ => .ok (out.meanSquareGradient target g)
  | crossEntropy _ logits targets, _ => .ok (logits.crossEntropyGradient targets g)

end Operation

end NeuralNet
