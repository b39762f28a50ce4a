import NeuralNet.Json.Form
import NeuralNet.Shape.Basic

namespace NeuralNet.Shape

/-- The shape with a batch, a tail and an open batch as documents say. Nothing says here whether the
parts fit together. -/
def ofParts? (batch tail unknownBatch : Json) : Option Shape := do
  return ⟨← batch.toOptionalNat?, ← (← tail.toList?).mapM Json.toNat?, ← unknownBatch.toBool?⟩

/-- The shape that a document describes, by the names of its parts or by their order. Only a batch
may be missing among names. -/
def ofJson? (j : Json) : Option Shape := do
  let [batch, tail, unknownBatch] ← j.fields? ["batch", "tail", "unknown_batch"] | none
  ofParts? (batch.getD .null) (← tail) (← unknownBatch)

end NeuralNet.Shape
