import NeuralNet.DenseArray.Basic

/-!
Broadcasting: extents are compared from the last axis on, and an axis of extent 1, or one that is
missing, stands for every extent. The gradient of a broadcast operand is summed back over the
positions that its elements were repeated to.
-/

namespace NeuralNet

namespace Extents

/-- What two extents of one axis become together. -/
def broadcastAxis? (a b : Nat) : Option Nat :=
  if a = b then some a else if a = 1 then some b else if b = 1 then some a else none

/-- Extents of equal rank, with axes of extent 1 put in front where they are missing. -/
def padTo (rank : Nat) (s : Extents) : Extents := List.replicate (rank - s.length) 1 ++ s

def broadcast? (a b : Extents) : Option Extents :=
  let rank := max a.length b.length
  ((padTo rank a).zip (padTo rank b)).mapM fun (x, y) => broadcastAxis? x y

/-- The index at which an array of extents `s` is read for a broadcast index. -/
def project (s : Extents) (i : List Nat) : List Nat :=
  s.zipWith (fun n j => if n = 1 then 0 else j) (i.drop (i.length - s.length))

end Extents

namespace DenseArray

variable {α β γ : Type}

/-- Combines two arrays at every index of their common extents. -/
def broadcastWith [Zero α] [Zero β] (s : Extents) (f : α → β → γ) (a : DenseArray α)
    (b : DenseArray β) : DenseArray γ :=
  generate s fun i => f (a.get (a.extents.project i)) (b.get (b.extents.project i))

/-- Combines two arrays that broadcast together; `operation` names them if they do not. -/
def broadcast [Zero α] [Zero β] (operation : String) (f : α → β → γ) (a : DenseArray α)
    (b : DenseArray β) : Except Error (DenseArray γ) :=
  match a.extents.broadcast? b.extents with
  | some s => .ok (broadcastWith s f a b)
  | none =>
    .error (.shapeMismatch (operation ++ " operands") (.extents a.extents) (.extents b.extents))

/-- A gradient times the other factor of a product; `own` are the extents of the factor that the
gradient is for. Entries of equal extents are multiplied in place, all others as they broadcast. -/
def times [Zero α] [Mul α] (g factor : DenseArray α) (own : Extents) : DenseArray α :=
  if g.extents = own ∧ g.extents = factor.extents then g.zipWith (· * ·) factor
  else broadcastWith g.extents (· * ·) g factor

/-- The sums along an axis, which disappears. -/
def sumAxis [Zero α] [Add α] (a : DenseArray α) (axis : Nat) : DenseArray α :=
  generate (a.extents.eraseIdx axis) fun i =>
    Scalar.sumUpTo (a.extents.getD axis 0) fun j => a.get (i.insertIdx axis j)

/-- The same entries with a new axis of extent 1. -/
def insertAxis [Zero α] (a : DenseArray α) (axis : Nat) : DenseArray α :=
  generate (a.extents.insertIdx axis 1) fun i => a.get (i.eraseIdx axis)

/-- Sums along the first axis, `n` times. -/
def sumLeading [Zero α] [Add α] (a : DenseArray α) : Nat → DenseArray α
  | 0 => a
  | n + 1 => (a.sumAxis 0).sumLeading n

/-- Sums along every axis, from `axis` on, that has more than one entry where the target has extent
1. None if any other axis is not as in the target. -/
def sumUnits [Zero α] [Add α] : (target : Extents) → (axis : Nat) → DenseArray α →
    Option (DenseArray α)
  | [], _, a => some a
  | t :: target, axis, a =>
    match a.extents[axis]? with
    | some n =>
      if t = 1 ∧ 1 < n then sumUnits target (axis + 1) ((a.sumAxis axis).insertAxis axis)
      else if t = n then sumUnits target (axis + 1) a
      else none
    | none => none

/-- Sums a gradient down to the extents of the operand it is for: first along the axes that the
operand does not have, then along those that it has extent 1 on. -/
def reduceTo [Zero α] [Add α] (g : DenseArray α) (target : Extents) : Except Error (DenseArray α) :=
  if g.extents = target then .ok g
  else
    match sumUnits target 0 (g.sumLeading (g.rank - target.length)) with
    | some d => .ok d
    | none => .error (.shapeMismatch "gradient reduction" (.extents target) (.extents g.extents))

end DenseArray

end NeuralNet
