import NeuralNet.Block.Basic
import NeuralNet.Dataset
import NeuralNet.Optimizer.Step
import NeuralNet.Tape.Backward
import NeuralNet.Training.History
import NeuralNet.Training.Settings

/-!
Training a block: every batch goes forward, its loss goes backward, and the optimizer steps. What a
batch put on the tape is taken off again.
-/

namespace NeuralNet

structure Trainer (α : Type) where
  block : Block
  settings : TrainingSettings
  /-- Made when the parameters are resolved. -/
  optimizer : Option (Optimizer α)
  workspace : Workspace α

/-- What a trainer does may fail, and what it did before stays done. -/
abbrev Training (α : Type) := ExceptT Error (StateM (Trainer α))

namespace Trainer

variable {α β : Type}

/-- Valid settings, and the random source of their seed if they have one. -/
def start (block : Block) (settings : TrainingSettings) (w : Workspace α) :
    Except Error (Trainer α) := do
  settings.validate
  return ⟨block, settings, none,
    match settings.seed with
    | some seed => { w with random := .ofSeed seed }
    | none => w⟩

/-- Computes in the workspace of the trainer. -/
def run (x : Run α β) : Training α β := fun t =>
  let (r, workspace) := x t.workspace
  (r, { t with workspace })

/-- Takes off the tape what was put there on the way, whatever comes of it. -/
def releasing (x : Training α β) : Training α β := fun t =>
  let mark := t.workspace.nodes.size
  let (r, t) := x t
  (r, { t with workspace := { t.workspace with nodes := t.workspace.nodes.take mark } })

variable [Scalar α]

/-- Resolves the parameters for given inputs and makes a new optimizer. -/
def prepare (inputs : List Shape) : Training α (List Shape) := do
  let t ← get
  let outputs ← run (t.block.resolve t.settings.initializer inputs)
  match Optimizer.ofSlots t.settings.optimizer t.block.slots with
  | .ok o =>
    modify fun t => { t with optimizer := some o }
    return outputs
  | .error e => throw e

/-- Prepares unless that was done already. -/
def ensurePrepared (inputs : List Extents) : Training α Unit := do
  let t ← get
  if t.optimizer.isSome && t.block.isResolved t.workspace then return
  let _ ← prepare (inputs.map Shape.ofExtents)

def setTraining (training : Bool) : Training α Unit :=
  run (modify fun w => { w with training })

/-- The first output of the block. -/
def prediction (outputs : List Tensor) : Training α Tensor :=
  match outputs with
  | first :: _ => return first
  | [] => throw (.invalidArgument .noOutputs)

/-- Outputs in evaluation; nothing is recorded. -/
def forward (inputs : List Tensor) : Training α (List Tensor) := do
  let t ← get
  ensurePrepared (inputs.map fun x => (t.workspace.value x).extents)
  setTraining false
  run (Run.paused (t.block.forward inputs))

/-- One step of the optimizer. -/
def step : Training α Unit := fun t =>
  match t.optimizer with
  | none => (.error (.uninitialized .optimizer), t)
  | some o =>
    let (r, o, workspace) := o.step t.workspace
    (r, { t with optimizer := some o, workspace })

def dropGradients : Training α Unit := do
  match (← get).optimizer with
  | none => throw (.uninitialized .optimizer)
  | some o => run o.dropGradients

/-- The loss of a batch, after which the parameters are moved along its gradient. -/
def trainBatch (b : Batch α) : Training α α := releasing do
  let x ← run (Run.leaf b.data false)
  let y ← run (Run.leaf b.labels false)
  ensurePrepared [b.data.extents]
  let t ← get
  setTraining true
  dropGradients
  let outputs ← run (t.block.forward [x])
  let loss ← run (t.settings.loss.apply (← prediction outputs) y)
  run (Run.backward loss)
  step
  return (← run (Run.value loss)).entry 0

/-- The loss of a batch and, where classes are told apart, the accuracy. Nothing is moved. -/
def evaluateBatch (b : Batch α) : Training α (α × Option α) := releasing do
  let x ← run (Run.leaf b.data false)
  let y ← run (Run.leaf b.labels false)
  let outputs ← forward [x]
  let predicted ← prediction outputs
  let settings := (← get).settings
  let loss ← run (settings.loss.apply predicted y)
  let value := (← run (Run.value loss)).entry 0
  match settings.loss with
  | .softmaxCrossEntropy => return (value, some (← run (Loss.accuracy predicted y)))
  | .l2 => return (value, none)

/-- The mean loss and the mean accuracy over all batches, weighted by their sizes. -/
def evaluate (d : Dataset α) : Training α (Option α × Option α) := do
  let results ← (d.batchesWith d.batchSize none 0).mapM fun b => do
    return (b.size, ← evaluateBatch b)
  return (Scalar.weightedMean (results.map fun (n, loss, _) => (loss, n)),
    Scalar.weightedMean (results.filterMap fun (n, _, hits) => hits.map fun a => (a, n)))

/-- Trains on every batch of an epoch and judges the outcome. -/
def runEpoch (train : Dataset Single) (validation : Option (Dataset Single)) (epoch : Nat) :
    Training Single Epoch := do
  let losses ← (train.batches epoch).mapM fun b => do return (← trainBatch b, b.size)
  let trainLoss := (Scalar.weightedMean losses).getD .zero
  let trainAccuracy ←
    match (← get).settings.loss with
    | .softmaxCrossEntropy => (·.2) <$> evaluate train
    | .l2 => pure none
  match validation with
  | some d => do
    let (loss, hits) ← evaluate d
    return ⟨epoch, trainLoss, trainAccuracy, loss, hits⟩
  | none => return ⟨epoch, trainLoss, trainAccuracy, none, none⟩

/-- The configured number of epochs. -/
def fit (train : Dataset Single) (validation : Option (Dataset Single)) :
    Training Single History := do
  let epochs := (← get).settings.epochs
  return ⟨← (List.range epochs).mapM (runEpoch train validation)⟩

end Trainer

end NeuralNet
