import NeuralNet.DenseArray.Basic

/-!
Rearrangements, each given by the extents of the result and the place in the source that every index
of the result is read from. A gradient of the result has a way back to the source that is computed on
its own.
-/

namespace NeuralNet

/-- How a gradient of a rearranged array is brought back to the source. -/
inductive WayBack where
  /-- In row-major order. -/
  | regroup
  /-- Axis `k` of the source is axis `axes[k]` of the gradient. -/
  | permute (axes : List Nat)
  /-- Into zeros, at one index of an axis. -/
  | select (axis index : Nat)
  /-- Into zeros, at the indices of an axis from `start` up to `stop`. -/
  | window (axis start stop : Nat)
  /-- Added row by row to the rows of a table. -/
  | rows (ids : Array Nat) (width : Nat)

/-- Extents of a result, where each of its indices is read, and the way back. -/
structure Rearrangement where
  extents : Extents
  place : List Nat → List Nat
  back : WayBack

namespace Rearrangement

/-- The same positions in row-major order. -/
def regroup (source target : Extents) : Except Error Rearrangement :=
  if target.addressable ∧ source.size = target.size then
    .ok ⟨target, fun i => source.unravel (target.ravel i), .regroup⟩
  else .error (.array .incompatibleExtents)

/-- Where an index is read if axis `k` is axis `axes[k]` of the source. -/
def permuted (axes : List Nat) (i : List Nat) : List Nat :=
  (List.range axes.length).map fun a => i.getD (axes.idxOf a) 0

/-- The axes that undo a permutation, filled in axis by axis. -/
def reverseAxes (axes : List Nat) : List Nat :=
  axes.zipIdx.foldl (fun reverse (a, k) => reverse.set a k) (List.replicate axes.length 0)

/-- Axis `k` of the result is axis `axes[k]` of the source. -/
def permute (source : Extents) (axes : List Nat) : Except Error Rearrangement :=
  let rank := source.length
  if axes.length = rank ∧ axes.all (· < rank) ∧ axes.Nodup then
    .ok ⟨axes.map fun a => source.getD a 0, permuted axes, .permute (reverseAxes axes)⟩
  else .error (.invalidArgument (.permutation axes rank))

def checkAxis (operation : String) (source : Extents) (axis : Nat) : Except Error Unit :=
  if axis < source.length then .ok ()
  else .error (.invalidArgument (.axis operation axis source.length))

/-- One index of an axis, which disappears. -/
def select (source : Extents) (axis index : Nat) : Except Error Rearrangement := do
  checkAxis "select" source axis
  if index < source.getD axis 0 then
    return ⟨source.eraseIdx axis, fun i => i.insertIdx axis index, .select axis index⟩
  else throw (.invalidArgument (.selection index axis source))

/-- The indices of an axis from `start` on. -/
def window (source : Extents) (axis start extent : Nat) : Rearrangement :=
  ⟨source.set axis extent, fun i => i.modify axis (· + start),
    .window axis start (start + extent)⟩

/-- The indices of the last axis from `start` up to `stop`. -/
def slice (source : Extents) (start stop : Nat) : Except Error Rearrangement :=
  match source.getLast? with
  | none => .error (.invalidArgument (.rankZero "slice_last_dim" "tensor"))
  | some last =>
    if start ≤ stop ∧ stop ≤ last then .ok (window source (source.length - 1) start (stop - start))
    else .error (.invalidArgument (.slice start stop last))

/-- Rows of a table, one for every id; the last axis runs along the row. -/
def rows (ids : Array Nat) (idExtents : Extents) (width : Nat) : Except Error Rearrangement :=
  if Extents.addressable (idExtents ++ [width]) then
    .ok ⟨idExtents ++ [width], fun i => [ids.getD (idExtents.ravel i.dropLast) 0, i.getLastD 0],
      .rows ids width⟩
  else .error (.array .incompatibleExtents)

end Rearrangement

namespace DenseArray

variable {α : Type}

/-- The array as rearranged. -/
def rearrange [Zero α] (a : DenseArray α) (r : Rearrangement) : DenseArray α :=
  a.gather r.extents r.place

/-- Brings a gradient of a rearranged array back to the extents of the source. -/
def bringBack [Zero α] [Add α] (g : DenseArray α) (source : Extents) :
    WayBack → Except Error (DenseArray α)
  | .regroup => g.regroup source
  | .permute axes =>
    .ok (g.gather (axes.map fun a => g.extents.getD a 0) (Rearrangement.permuted axes))
  | .select axis index =>
    .ok (generate source fun i =>
      if i.getD axis 0 = index then g.get (i.eraseIdx axis) else 0)
  | .window axis start stop =>
    .ok (generate source fun i =>
      let k := i.getD axis 0
      if start ≤ k ∧ k < stop then g.get (i.set axis (k - start)) else 0)
  | .rows ids width => do
    let rows ← g.regroup [ids.size, width]
    return collect source (ids.size * width)
      (fun p => some [ids.getD (p / width) 0, p % width]) rows.entry

/-- Where a part of a joined axis starts; past the last part, where the axis ends. -/
def partStart : List Nat → Nat → Nat
  | n :: rest, k + 1 => n + partStart rest k
  | _, _ => 0

/-- Which part an index of a joined axis falls into, and where in that part. -/
def locate : List Nat → Nat → Nat × Nat
  | [], j => (0, j)
  | n :: rest, j => if j < n then (0, j) else let (k, j) := locate rest (j - n); (k + 1, j)

/-- Joins arrays along an axis; off the axis their extents agree. -/
def concat [Zero α] (axis : Nat) (parts : List (DenseArray α)) : Except Error (DenseArray α) :=
  match parts with
  | [] => .error (.invalidArgument .nothingToJoin)
  | first :: _ => do
    Rearrangement.checkAxis "cat" first.extents axis
    let lengths := parts.map fun p => p.extents.getD axis 0
    let off (p : DenseArray α) := p.extents.eraseIdx axis
    if parts.all fun p => p.rank == first.rank && off p == off first then
      let table := parts.toArray
      let joined := first.extents.set axis (partStart lengths lengths.length)
      if !Extents.addressable joined then throw (.array .overflow)
      return generate joined fun i =>
        let (k, j) := locate lengths (i.getD axis 0)
        (table[k]?.map fun p => p.get (i.set axis j)).getD 0
    else throw (.array .incompatibleExtents)

end DenseArray

end NeuralNet
