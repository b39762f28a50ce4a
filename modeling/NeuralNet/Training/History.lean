import NeuralNet.Number.Single

namespace NeuralNet

/-- Averages over one epoch. -/
structure Epoch where
  epoch : Nat
  trainLoss : Single
  trainAccuracy : Option Single
  validationLoss : Option Single
  validationAccuracy : Option Single
  deriving DecidableEq, Repr

/-- The loss that an epoch is judged by. -/
def Epoch.judgedLoss (e : Epoch) : Single := e.validationLoss.getD e.trainLoss

/-- Epochs in the order of training. -/
structure History where
  epochs : List Epoch
  deriving DecidableEq, Repr

namespace History

def empty : History := ⟨[]⟩

def push (h : History) (e : Epoch) : History := ⟨h.epochs ++ [e]⟩

def last (h : History) : Option Epoch := h.epochs.getLast?

/-- The first epoch whose judged loss is least in the total order of single-precision words. -/
def best (h : History) : Option Epoch :=
  match h.epochs with
  | [] => none
  | first :: rest =>
    some (rest.foldl
      (fun best e => if e.judgedLoss.totalKey < best.judgedLoss.totalKey then e else best) first)

end History

end NeuralNet
