namespace NeuralNet

/-- A shape as the layers see it: the batch axis first, the other axes in the tail. The batch may be
left open. Rank 0 has neither a batch nor an open batch. -/
structure Shape where
  batch : Option Nat
  tail : List Nat
  unknownBatch : Bool
  deriving DecidableEq, Repr

namespace Shape

/-- Rank 0. -/
def scalar : Shape := ⟨none, [], false⟩

def ofExtents : List Nat → Shape
  | [] => scalar
  | batch :: tail => ⟨some batch, tail, false⟩

/-- `(?, tail...)` -/
def withUnknownBatch (tail : List Nat) : Shape := ⟨none, tail, true⟩

/-- The same batch axis before another tail. -/
def withTail (s : Shape) (tail : List Nat) : Shape := { s with tail }

def rank (s : Shape) : Nat :=
  if s.batch.isSome || s.unknownBatch then s.tail.length + 1 else 0

/-- The extent of an axis, if it is known. -/
def dim (s : Shape) (axis : Nat) : Option Nat :=
  match axis with
  | 0 => s.batch
  | axis + 1 => s.tail[axis]?

def last (s : Shape) : Option Nat :=
  match s.tail.getLast? with
  | some d => some d
  | none => s.batch

/-- How many elements there are, unless the batch is open. -/
def size (s : Shape) : Option Nat :=
  if s.unknownBatch then none else some (s.batch.getD 1 * s.tail.foldl (· * ·) 1)

/-- Whether `extents` is an instance: an open batch accepts every extent. -/
def accepts (s : Shape) (extents : List Nat) : Bool :=
  extents.length == s.rank &&
    match extents with
    | [] => true
    | batch :: tail => (s.unknownBatch || s.batch == some batch) && tail == s.tail

def text (s : Shape) : String :=
  let lead := if s.unknownBatch then ["?"] else s.batch.toList.map toString
  "(" ++ ", ".intercalate (lead ++ s.tail.map toString) ++ ")"

end Shape

end NeuralNet
