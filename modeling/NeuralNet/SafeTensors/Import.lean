import NeuralNet.Block.Storage
import NeuralNet.SafeTensors.File

namespace NeuralNet.SafeTensors

open ParameterList (Staged commit)

/-- New values for a parameter from a file, if the file has them. A resolved parameter keeps its
element type. -/
def stageOne (f : File) (w : Workspace Single) (key : String) (slot : Nat) :
    Except Error (Option Staged) :=
  match f.entry? key with
  | none => .ok none
  | some e => do
    let (source, values) ← e.decode (f.bytes e)
    let data ← DenseArray.ofList e.extents values
    match (w.slot slot).content with
    | none => return some ⟨slot, source, data⟩
    | some c =>
      if c.data.extents = data.extents then return some ⟨slot, c.type, data⟩
      else
        throw (.shapeMismatch s!"safetensors tensor `{key}`" (.extents c.data.extents)
          (.extents data.extents))

/-- Fills the parameters that a file has values for, and counts them. -/
def load (ps : ParameterList) (bytes : List UInt8) : Run Single Nat := do
  let f ← Run.check ((ofBytes bytes).mapError .safeTensors)
  let w ← get
  let staged ← Run.check (ps.mapM fun (key, slot) => stageOne f w key slot)
  commit staged.reduceOption
  return staged.reduceOption.length

end NeuralNet.SafeTensors
