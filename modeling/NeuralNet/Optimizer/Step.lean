import NeuralNet.Optimizer.Document
import NeuralNet.Tape.Workspace

/-!
Moving parameters along their gradients. Every tracked parameter has running moments of its own,
which start at 0 with its first update.
-/

namespace NeuralNet

/-- A parameter and the moments of its gradients. -/
structure Tracked (α : Type) where
  slot : Nat
  first : Option (DenseArray α)
  second : Option (DenseArray α)

structure Optimizer (α : Type) where
  settings : OptimizerSettings
  /-- How many steps were taken. A run may take any number of them here, where a counter of 32 bits
  with a sign holds less than `2 ^ 31`. -/
  steps : Nat
  tracked : List (Tracked α)

namespace Optimizer

variable {α : Type} [Scalar α]

def ofSlots (settings : OptimizerSettings) (slots : List Nat) : Except Error (Optimizer α) := do
  settings.validate
  return ⟨settings, 0, slots.map fun slot => ⟨slot, none, none⟩⟩

/-- Downhill by the gradient. -/
def descend (rate : α) (data direction : DenseArray α) : DenseArray α :=
  data.zipWith (fun w d => w - rate * d) direction

/-- The values after a step, with the moments that the step leaves; `steps` counts this one. -/
def update (settings : OptimizerSettings) (steps : Nat) (t : Tracked α) (data g : DenseArray α) :
    Tracked α × DenseArray α :=
  match settings with
  | .sgd learningRate momentum =>
    let rate : α := Scalar.ofSingle learningRate
    if momentum.eqv .zero then (t, descend rate data g)
    else
      let m : α := Scalar.ofSingle momentum
      let velocity := (t.first.getD (.zeros g.extents)).zipWith (fun v d => m * v + d) g
      (⟨t.slot, some velocity, t.second⟩, descend rate data velocity)
  | .adam learningRate beta1 beta2 epsilon =>
    let rate : α := Scalar.ofSingle learningRate
    let b1 : α := Scalar.ofSingle beta1
    let b2 : α := Scalar.ofSingle beta2
    let eps : α := Scalar.ofSingle epsilon
    let c1 := 1 - Scalar.pow b1 steps
    let c2 := 1 - Scalar.pow b2 steps
    let first := (t.first.getD (.zeros g.extents)).zipWith (fun m d => b1 * m + (1 - b1) * d) g
    let second :=
      (t.second.getD (.zeros g.extents)).zipWith (fun v d => b2 * v + (1 - b2) * d * d) g
    let direction := first.zipWith (fun m v => m / c1 / (Scalar.sqrt (v / c2) + eps)) second
    (⟨t.slot, some first, some second⟩, descend rate data direction)

/-- One step of one parameter: frozen ones and those without a gradient stay as they are. -/
def advance (settings : OptimizerSettings) (steps : Nat) (t : Tracked α) (p : Slot α) :
    Except Error (Tracked α × Slot α) :=
  if !p.trainable then .ok (t, p)
  else do
    let c ← p.require
    match c.grad with
    | none => return (t, p)
    | some g =>
      let (t, data) := update settings steps t c.data g
      return (t, ({ p with content := some { c with data } } : Slot α).requantize)

/-- One step of every parameter, up to the first that cannot be stepped. -/
def advanceAll (settings : OptimizerSettings) (steps : Nat) :
    List (Tracked α) → Workspace α → Except Error Unit × List (Tracked α) × Workspace α
  | [], w => (.ok (), [], w)
  | t :: rest, w =>
    match advance settings steps t (w.slot t.slot) with
    | .error e => (.error e, t :: rest, w)
    | .ok (t, p) =>
      let (r, rest, w) := advanceAll settings steps rest (w.modifySlot t.slot fun _ => p)
      (r, t :: rest, w)

/-- One step; what was stepped before a failure stays stepped. -/
def step (o : Optimizer α) (w : Workspace α) : Except Error Unit × Optimizer α × Workspace α :=
  let (r, tracked, w) := advanceAll o.settings (o.steps + 1) o.tracked w
  (r, { o with steps := o.steps + 1, tracked }, w)

/-- Drops the gradients of all parameters. -/
def dropGradients (o : Optimizer α) : Run α Unit :=
  o.tracked.forM fun t => do Run.dropGradient (← Run.weight t.slot)

end Optimizer

end NeuralNet
