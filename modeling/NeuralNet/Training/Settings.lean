import NeuralNet.Initializer.Document
import NeuralNet.Json.Reader
import NeuralNet.Loss
import NeuralNet.Optimizer.Document

namespace NeuralNet

/-- What a trainer needs besides the network and the data. -/
structure TrainingSettings where
  initializer : Initializer
  optimizer : OptimizerSettings
  loss : Loss
  epochs : Nat
  /-- The seed of the random source, if it is set anew. -/
  seed : Option Nat
  deriving DecidableEq, Repr

namespace TrainingSettings

/-- One epoch, without a seed. -/
def ofInitializer (initializer : Initializer) : TrainingSettings :=
  ⟨initializer, .default, .softmaxCrossEntropy, 1, none⟩

def default : TrainingSettings := ofInitializer .xavierUniform

def validate (s : TrainingSettings) : Except Error Unit := do
  s.initializer.validate
  s.optimizer.validate

/-- A field that may be left out, read by `read`. -/
def field? {β : Type} (otherwise : β) (read : Json → Option β) : Option Json → Option β
  | none => some otherwise
  | some j => read j

def loss? (j : Json) : Option Loss := j.choice?.bind Loss.ofName?

/-- The settings that a form describes; what is left out has its default. -/
def ofJson? (j : Json) : Option TrainingSettings := do
  let [initializer, optimizer, loss, epochs, seed] ←
    j.fields? ["initializer", "optimizer", "loss", "epochs", "seed"] | none
  return ⟨← field? default.initializer Initializer.ofJson? initializer,
    ← field? default.optimizer OptimizerSettings.ofJson? optimizer,
    ← field? default.loss loss? loss,
    ← field? default.epochs Json.toNat? epochs,
    ← field? default.seed Json.toOptionalNat? seed⟩

/-- Reads and validates. -/
def parse (text : String) : Except Error TrainingSettings :=
  match (Json.parse? text).bind ofJson? with
  | none => .error .document
  | some s => do
    s.validate
    return s

def text (s : TrainingSettings) : String :=
  Json.objectText [
    ("initializer", s.initializer.text),
    ("optimizer", s.optimizer.text),
    ("loss", Json.quotedText s.loss.name),
    ("epochs", toString s.epochs),
    ("seed", (s.seed.map toString).getD "null")]

end TrainingSettings

end NeuralNet
