import NeuralNet.Error

namespace NeuralNet.Shape

/-- All extents, unless the batch is open. -/
def concrete (s : Shape) : Except Error (List Nat) :=
  if s.unknownBatch then .error (.invalidArgument (.symbolicBatch s))
  else .ok (s.batch.toList ++ s.tail)

def expectRank (s : Shape) (rank : Nat) (context : String) : Except Error Unit :=
  if s.rank = rank then .ok ()
  else .error (.shapeMismatch context (.words s!"rank {rank}") (.words s.text))

/-- An extent that has to be known. -/
def requireDim (s : Shape) (axis : Nat) (context : String) : Except Error Nat :=
  match s.dim axis with
  | some d => .ok d
  | none => .error (.shapeMismatch context (.words s!"known dimension {axis}") (.words s.text))

end NeuralNet.Shape
