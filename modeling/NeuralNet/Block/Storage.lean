import NeuralNet.Block.Basic

/-!
Parameters to a stream of records and back. All records are checked before a parameter changes.
-/

namespace NeuralNet

/-- Parameters under their keys, in the order in which they are stored. -/
abbrev ParameterList := List (String × Nat)

namespace ParameterList

/-- One record for every parameter; all of them have to be resolved. -/
def save (ps : ParameterList) (w : Workspace Single) : Except Error (List UInt8) := do
  let records ← ps.mapM fun (key, slot) => (w.slot slot).toRecord key
  return (← records.mapM Record.encode).flatten

/-- New values for a slot. -/
structure Staged where
  slot : Nat
  type : DataType
  data : DenseArray Single
  deriving DecidableEq, Repr

/-- Reads the record of one parameter. -/
def stageOne (w : Workspace Single) (total position : Nat) (key : String) (slot : Nat) :
    Record.Reader Staged := do
  let some r ← Record.read | throw (.malformedStream (.endedAfter position total))
  if r.name ≠ key then throw (.malformedStream (.unexpectedName key position r.name))
  let _ ← (w.slot slot).checkCompatible r.extents r.type
  return ⟨slot, r.type, ← DenseArray.ofList r.extents r.values⟩

def stageFrom (w : Workspace Single) (total position : Nat) :
    ParameterList → Record.Reader (List Staged)
  | [] => return []
  | (key, slot) :: rest => do
    let first ← stageOne w total position key slot
    return first :: (← stageFrom w total (position + 1) rest)

/-- Reads a record for every parameter, in their order and under their keys. -/
def stage (ps : ParameterList) (w : Workspace Single) : Record.Reader (List Staged) :=
  stageFrom w ps.length 0 ps

/-- As `stage`, and the source has to end there. -/
def stageExact (ps : ParameterList) (w : Workspace Single) : Record.Reader (List Staged) := do
  let staged ← ps.stage w
  match ← Record.readBytes? .values 1 with
  | none => return staged
  | some _ => throw (.malformedStream .trailingBytes)

/-- Stores new values, one slot after another. -/
def commit (staged : List Staged) : Run Single Unit :=
  staged.forM fun s => do
    let p ← Run.check (((← get).slot s.slot).setArray s.type s.data)
    modify (·.modifySlot s.slot fun _ => p)

/-- Loads from a source what `save` wrote. What follows is left alone unless `exact` is set. -/
def load (ps : ParameterList) (exact : Bool) (source : ByteSource) : Run Single Unit := do
  let w ← get
  let reader := if exact then ps.stageExact w else ps.stage w
  let (staged, _) ← Run.check (reader.run source)
  commit staged

end ParameterList

end NeuralNet
