import NeuralNet.Tape.Workspace

/-!
Computing on handles: every operation puts its result on the tape.
-/

namespace NeuralNet.Tensor

open Run (check record value)

variable {α : Type} [Scalar α]

def add (a b : Tensor) : Run α Tensor := do
  record (.add a b) (← check ((← value a).broadcast "add" (· + ·) (← value b)))

def sub (a b : Tensor) : Run α Tensor := do
  record (.sub a b) (← check ((← value a).broadcast "sub" (· - ·) (← value b)))

def mul (a b : Tensor) : Run α Tensor := do
  record (.mul a b) (← check ((← value a).broadcast "mul" (· * ·) (← value b)))

def scale (a : Tensor) (factor : α) : Run α Tensor := do
  record (.scale a factor) ((← value a).map (· * factor))

def sum (a : Tensor) : Run α Tensor := do
  record (.sum a) (.scalar (← value a).sum)

/-- The sum over the number of values, which counts as at least 1. -/
def mean (a : Tensor) : Run α Tensor := do
  let n := (← value a).size
  (← a.sum).scale (1 / Scalar.ofNat (max n 1))

def relu (a : Tensor) : Run α Tensor := do
  record (.relu a) ((← value a).map Scalar.relu)

def sigmoid (a : Tensor) : Run α Tensor := do
  let y := (← value a).map Scalar.sigmoid
  record (.sigmoid a y) y

def tanh (a : Tensor) : Run α Tensor := do
  let y := (← value a).map Scalar.tanh
  record (.tanh a y) y

def logSoftmax (a : Tensor) : Run α Tensor := do
  let x ← value a
  if x.extents = [] then throw (.invalidArgument (.rankZero "log_softmax" "tensor"))
  record (.logSoftmax a x.logSoftmax) x.logSoftmax

/-- Puts the entries elsewhere, as a plan made from the extents says. -/
def rearrange (a : Tensor) (plan : Extents → Except Error Rearrangement) : Run α Tensor := do
  let x ← value a
  let r ← check (plan x.extents)
  record (.rearrange a x.extents r) (x.rearrange r)

def reshape (a : Tensor) (s : Extents) : Run α Tensor :=
  a.rearrange fun source => Rearrangement.regroup source s

def permute (a : Tensor) (axes : List Nat) : Run α Tensor :=
  a.rearrange fun source => Rearrangement.permute source axes

def select (a : Tensor) (axis index : Nat) : Run α Tensor :=
  a.rearrange fun source => Rearrangement.select source axis index

/-- A range of the last axis. -/
def slice (a : Tensor) (start stop : Nat) : Run α Tensor :=
  a.rearrange fun source => Rearrangement.slice source start stop

/-- Joins along an axis. -/
def concat (parts : List Tensor) (axis : Nat) : Run α Tensor := do
  let w ← get
  let arrays := parts.map w.value
  let joined ← check (DenseArray.concat axis arrays)
  record (.concat parts axis (arrays.map fun a => a.extents.getD axis 0)) joined

/-- Joins along a new axis. -/
def stack (parts : List Tensor) (axis : Nat) : Run α Tensor := do
  let raised ← parts.mapM fun t => do
    let s := (← value t).extents
    if axis ≤ s.length then t.reshape (s.insertIdx axis 1)
    else throw (.invalidArgument (.axis "stack" axis s.length))
  concat raised axis

/-- Every row of `a` against every row of `b`. -/
def matmul (a b : Tensor) : Run α Tensor := do
  let x ← value a
  let y ← value b
  record (.matmul a b x y) (← check (x.matmul y))

/-- The row of a table that a number names. -/
def rowId (rows : Nat) (id : α) : Except Error Nat :=
  match Scalar.toNat? id with
  | some i =>
    if i < rows then .ok i else .error (.invalidArgument (.embeddingId (Scalar.text id) rows))
  | none => .error (.invalidArgument (.embeddingId (Scalar.text id) rows))

/-- The rows of a table that an array of numbers names. -/
def embedding (ids table : Tensor) : Run α Tensor := do
  let t ← value table
  match t.extents with
  | [rows, width] =>
    let x ← value ids
    let chosen ← check (x.toList.mapM (rowId rows))
    let r ← check (Rearrangement.rows chosen.toArray x.extents width)
    record (.rearrange table t.extents r) (t.rearrange r)
  | s => throw (.shapeMismatch "embedding weight" (.words "[V, D]") (.extents s))

def convolve (x w : Tensor) (bias : Option Tensor) (stride padding : List Nat) : Run α Tensor := do
  let input ← value x
  let weight ← value w
  let c ← check (Convolution.fit input.extents weight.extents stride padding)
  let shift ← bias.mapM value
  if let some b := shift then
    if b.extents ≠ [c.filters] then
      throw (.shapeMismatch "conv bias" (.extents [c.filters]) (.extents b.extents))
  record (.convolve x w bias c input weight) (c.apply input weight shift)

/-- How to normalize. -/
structure Normalization where
  axis : Nat
  epsilon : Single
  momentum : Single
  training : Bool
  deriving DecidableEq, Repr

/-- An array with one value for each channel. -/
def perChannel (t : Tensor) (channels : Nat) (what : String) : Run α (DenseArray α) := do
  let a ← value t
  if a.extents = [channels] then return a
  else throw (.shapeMismatch ("batch norm " ++ what) (.extents [channels]) (.extents a.extents))

/-- Normalizes every channel: in training by the batch, which also moves the running statistics,
else by the running statistics. -/
def normalize (x gamma beta runningMean runningVar : Tensor) (how : Normalization) :
    Run α Tensor := do
  let input ← value x
  if input.rank ≤ how.axis then throw (.invalidArgument (.normAxis how.axis input.rank))
  let channels := input.extents.getD how.axis 0
  let scale ← gamma.perChannel channels "gamma"
  let shift ← beta.perChannel channels "beta"
  let storedMean ← runningMean.perChannel channels "running mean"
  let storedVar ← runningVar.perChannel channels "running variance"
  let epsilon := Scalar.ofSingle how.epsilon
  if how.training then
    let momentum := Scalar.ofSingle how.momentum
    let rows := input.toRows how.axis
    let mean := Normalized.batchMean rows
    let variance := Normalized.batchVariance rows mean
    modify (·.setValue runningMean (Normalized.blend momentum storedMean mean))
    modify (·.setValue runningVar (Normalized.blend momentum storedVar variance))
    let n := Normalized.of input mean variance scale how.axis epsilon true
    record (.normalize x gamma beta n) (n.output shift)
  else
    let n := Normalized.of input storedMean storedVar scale how.axis epsilon false
    record (.normalize x gamma beta n) (n.output shift)

/-- Drops every value with a probability and scales the others up; nothing happens at 0. -/
def dropout (a : Tensor) (probability : Single) : Run α Tensor := do
  if !OptimizerSettings.isFraction probability then
    throw (.invalidArgument (.dropoutProbability probability))
  if probability.eqv .zero then return a
  let keep := Single.one - probability
  let x ← value a
  let kept ← Run.draw (Draw.times (Draw.coin keep) x.size)
  let scale : α := Scalar.ofSingle (.one / keep)
  let mask ← check (DenseArray.ofList x.extents (kept.map fun k => if k then scale else 0))
  record (.mask a mask) (x.zipWith (· * ·) mask)

end NeuralNet.Tensor
