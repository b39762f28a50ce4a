import NeuralNet.DenseArray.Broadcast
import NeuralNet.DenseArray.Contract
import NeuralNet.Window

/-!
Convolution over any number of axes. A table tells which value of a sample lies under each place of a
filter, for every window. Laid out by the table, a sample is a matrix that has a column for every
window, and the filters are multiplied with it; the way back goes through the same table.
-/

namespace NeuralNet

/-- The sizes of a convolution. Lists have one entry for each axis that windows move along. -/
structure Convolution where
  batch : Nat
  channels : Nat
  filters : Nat
  input : Extents
  kernel : Extents
  stride : List Nat
  padding : List Nat
  output : Extents
  deriving DecidableEq, Repr

namespace Convolution

/-- Fits a weight `filters :: channels :: kernel` to an input `batch :: channels :: input`. -/
def fit (x w : Extents) (stride padding : List Nat) : Except Error Convolution :=
  match x, w with
  | batch :: channels :: input, filters :: wChannels :: kernel =>
    if input = [] ∨ kernel.length ≠ input.length then mismatch
    else if stride.length ≠ input.length ∨ padding.length ≠ input.length then
      .error (.invalidArgument (.windowArity stride padding input.length))
    else if channels ≠ wChannels then
      .error (.shapeMismatch "conv input channels" (.count wChannels) (.count channels))
    else
      match (input.zip (kernel.zip (stride.zip padding))).mapM fun (n, k, s, p) =>
        windowCount? n k s p with
      | some output =>
        .ok ⟨batch, channels, filters, input, kernel, stride, padding, output⟩
      | none =>
        .error (.shapeMismatch "conv spatial extent"
          (.words ("at least kernel " ++ Extents.text kernel)) (.extents x))
  | _, _ => mismatch
where
  mismatch : Except Error Convolution :=
    .error (.shapeMismatch "conv weight" (.words "[F, C, K...] matching input rank") (.extents w))

/-- The index at a position in row-major order, taken off from the last axis on. -/
def digits (s : Extents) (p : Nat) : List Nat :=
  (s.foldr (fun n (rest : Nat × List Nat) => (rest.1 / n, rest.1 % n :: rest.2)) (p, [])).2

/-- Where place `k` of a filter lies on an axis, for the window at `o`. This is counted in 64 bits
with a sign. -/
def shifted (stride padding o k : Nat) : Int :=
  ((o * stride + k : Int) - padding).bmod 0x10000000000000000

/-- The position in row-major order under place `k` for the window at `o`; none in the padding.
`offset` is the position on the axes that have been looked at. -/
def offset? : (input stride padding o k : List Nat) → (offset : Nat) → Option Nat
  | n :: input, s :: stride, p :: padding, o :: os, k :: ks, offset =>
    let q := shifted s p o k
    if q < 0 ∨ n ≤ q.toNat then none
    else offset? input stride padding os ks (offset * n + q.toNat)
  | _, _, _, _, _, offset => some offset

/-- How many places a filter has. -/
def rows (c : Convolution) : Nat := c.channels * c.kernel.size

/-- How many windows there are. -/
def cols (c : Convolution) : Nat := c.output.size

def sampleSize (c : Convolution) : Nat := c.channels * c.input.size

/-- For every place of a filter, and for every window there, the position in a sample. -/
def indexTable (c : Convolution) : Array (Option Nat) :=
  let windows := (List.range c.cols).map (digits c.output)
  let table := (List.range c.rows).flatMap fun row =>
    let channel := row / c.kernel.size
    let k := digits c.kernel (row % c.kernel.size)
    windows.map fun o =>
      (offset? c.input c.stride c.padding o k 0).map (channel * c.input.size + ·)
  table.toArray

variable {α : Type} [Zero α] [Add α] [Mul α]

/-- The matrix that sample `n` is laid out as: 0 in the padding. -/
def im2col (c : Convolution) (table : Array (Option Nat)) (x : DenseArray α) (n row col : Nat) : α :=
  (table[row * c.cols + col]?).join.elim 0 fun i => x.entry (n * c.sampleSize + i)

/-- What is made for every sample, one after the other. -/
def samples (count : Nat) (s : Extents) (sample : Nat → DenseArray α) : DenseArray α :=
  let parts := Array.ofFn fun n : Fin count => sample n
  DenseArray.generate (count :: s) fun i =>
    match i with
    | n :: l => (parts[n]?).elim 0 (·.get l)
    | [] => 0

/-- The filters times the matrix of every sample, and the bias of each filter. -/
def apply (c : Convolution) (x w : DenseArray α) (bias : Option (DenseArray α)) : DenseArray α :=
  let table := c.indexTable
  let filters := w.relaid [c.filters, c.rows]
  let out := samples c.batch [c.filters, c.cols] fun n =>
    DenseArray.product c.filters c.rows c.cols (fun f r => filters.get [f, r]) (c.im2col table x n)
  let out := match bias with
    | some b => DenseArray.broadcastWith out.extents (· + ·) out (b.relaid [c.filters, 1])
    | none => out
  out.relaid (c.batch :: c.filters :: c.output)

/-- What a gradient gives the input: the transposed filters times it, added up at the positions that
the table has. -/
def toInput (c : Convolution) (g w : DenseArray α) : DenseArray α :=
  let table := c.indexTable
  let filters := w.relaid [c.filters, c.rows]
  let grads := g.relaid [c.batch, c.filters, c.cols]
  let out := samples c.batch [c.sampleSize] fun n =>
    let d := DenseArray.product c.rows c.filters c.cols (fun r f => filters.get [f, r])
      fun f j => grads.get [n, f, j]
    DenseArray.collect [c.sampleSize] table.size (fun k => (table[k]?).join.map ([·]))
      fun k => d.get [k / c.cols, k % c.cols]
  out.relaid (c.batch :: c.channels :: c.input)

/-- What a gradient gives the weight: that of every sample times the transposed matrix of the sample,
summed over the samples. -/
def toWeight (c : Convolution) (g x : DenseArray α) : DenseArray α :=
  let table := c.indexTable
  let grads := g.relaid [c.batch, c.filters, c.cols]
  let sum := (List.range c.batch).foldl (fun sum n => sum.zipWith (· + ·)
    (DenseArray.product c.filters c.cols c.rows (fun f j => grads.get [n, f, j])
      fun j r => c.im2col table x n r j)) (DenseArray.zeros [c.filters, c.rows])
  sum.relaid (c.filters :: c.channels :: c.kernel)

/-- What a gradient gives the bias. -/
def toBias (c : Convolution) (g : DenseArray α) : DenseArray α :=
  ((g.relaid [c.batch, c.filters, c.cols]).sumAxis 2).sumAxis 0

end Convolution

end NeuralNet
