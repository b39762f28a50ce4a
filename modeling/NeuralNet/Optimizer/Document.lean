import NeuralNet.Error
import NeuralNet.Json.Form

namespace NeuralNet.OptimizerSettings

def validate (s : OptimizerSettings) : Except Error Unit :=
  if s.inRange then .ok () else .error (.invalidSetting (.optimizer s))

/-- The settings that a tagged form describes; only the learning rate has to be given. -/
def ofJson? (j : Json) : Option OptimizerSettings := do
  let (tag, form) ← j.tagged?
  match tag with
  | "sgd" => do
    let [learningRate, momentum] ← form.fields? ["learning_rate", "momentum"] | none
    return sgd (← Json.required? learningRate) (← Json.optional? momentum .zero)
  | "adam" => do
    let [learningRate, beta1, beta2, epsilon] ←
      form.fields? ["learning_rate", "beta1", "beta2", "epsilon"] | none
    return adam (← Json.required? learningRate) (← Json.optional? beta1 defaultBeta1)
      (← Json.optional? beta2 defaultBeta2) (← Json.optional? epsilon defaultEpsilon)
  | _ => none

def text (s : OptimizerSettings) : String :=
  let tagged (tag : String) (members : List (String × Single)) :=
    Json.objectText (("type", Json.quotedText tag) ::
      members.map fun (name, a) => (name, a.interchangeText))
  match s with
  | sgd learningRate momentum =>
    tagged "sgd" [("learning_rate", learningRate), ("momentum", momentum)]
  | adam learningRate beta1 beta2 epsilon =>
    tagged "adam" [("learning_rate", learningRate), ("beta1", beta1), ("beta2", beta2),
      ("epsilon", epsilon)]

end NeuralNet.OptimizerSettings
