import NeuralNet.Initializer
import NeuralNet.Json.Form

namespace NeuralNet.Initializer

/-- The initializer that a tagged form describes. -/
def ofJson? (j : Json) : Option Initializer := do
  let (tag, form) ← j.tagged?
  match tag with
  | "zeros" => do let _ ← form.fields? []; return zeros
  | "ones" => do let _ ← form.fields? []; return ones
  | "constant" => do
    let [value] ← form.fields? ["value"] | none
    return constant (← Json.required? value)
  | "uniform" => do
    let [scale] ← form.fields? ["scale"] | none
    return uniform (← Json.required? scale)
  | "normal" => do
    let [sigma] ← form.fields? ["sigma"] | none
    return normal (← Json.required? sigma)
  | "xavier_uniform" => do let _ ← form.fields? []; return xavierUniform
  | "kaiming_normal" => do let _ ← form.fields? []; return kaimingNormal
  | _ => none

def text (i : Initializer) : String :=
  let tagged (tag : String) (members : List (String × Single)) :=
    Json.objectText (("type", Json.quotedText tag) ::
      members.map fun (name, a) => (name, a.interchangeText))
  match i with
  | zeros => tagged "zeros" []
  | ones => tagged "ones" []
  | constant value => tagged "constant" [("value", value)]
  | uniform scale => tagged "uniform" [("scale", scale)]
  | normal sigma => tagged "normal" [("sigma", sigma)]
  | xavierUniform => tagged "xavier_uniform" []
  | kaimingNormal => tagged "kaiming_normal" []

end NeuralNet.Initializer
