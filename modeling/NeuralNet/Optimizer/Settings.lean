import NeuralNet.Number.Decimal

namespace NeuralNet

/-- How parameters follow their gradients. -/
inductive OptimizerSettings where
  | sgd (learningRate momentum : Single)
  | adam (learningRate beta1 beta2 epsilon : Single)
  deriving DecidableEq, Repr

namespace OptimizerSettings

def defaultBeta1 : Single := .ofDecimal false ⟨9, -1⟩

def defaultBeta2 : Single := .ofDecimal false ⟨999, -3⟩

def defaultEpsilon : Single := .ofDecimal false ⟨1, -8⟩

def default : OptimizerSettings := .sgd (.ofDecimal false ⟨1, -2⟩) .zero

/-- Adam with the usual decay rates. -/
def adamWith (learningRate : Single) : OptimizerSettings :=
  .adam learningRate defaultBeta1 defaultBeta2 defaultEpsilon

/-- At least 0 and below 1. -/
def isFraction (a : Single) : Bool := Single.zero.le a && a.lt .one

/-- Steps are positive and every decay rate is a fraction. -/
def inRange : OptimizerSettings → Bool
  | .sgd learningRate momentum => Single.zero.lt learningRate && isFraction momentum
  | .adam learningRate beta1 beta2 epsilon =>
    Single.zero.lt learningRate && isFraction beta1 && isFraction beta2 && Single.zero.lt epsilon

def label : OptimizerSettings → String
  | .sgd learningRate momentum =>
    "Sgd \x7b learning_rate: " ++ learningRate.diagnosticText ++
      ", momentum: " ++ momentum.diagnosticText ++ " \x7d"
  | .adam learningRate beta1 beta2 epsilon =>
    "Adam \x7b learning_rate: " ++ learningRate.diagnosticText ++
      ", beta1: " ++ beta1.diagnosticText ++ ", beta2: " ++ beta2.diagnosticText ++
      ", epsilon: " ++ epsilon.diagnosticText ++ " \x7d"

end OptimizerSettings

end NeuralNet
