import NeuralNet.Parameter.Basic
import NeuralNet.Tape.Operation

/-!
The state that computing goes on in: the parameters, the tape of what was computed, and the source
of random numbers. A computation may fail, and what it did before stays done.
-/

namespace NeuralNet

/-- An entry of the tape. -/
structure Node (α : Type) where
  data : DenseArray α
  grad : Option (DenseArray α)
  requiresGrad : Bool
  /-- How it was computed, if a gradient can be sent back. -/
  origin : Option (Operation α)

structure Workspace (α : Type) where
  slots : Array (Slot α)
  nodes : Array (Node α)
  /-- How many pauses of recording are open. -/
  pauses : Nat
  /-- Whether layers behave as in training. -/
  training : Bool
  /-- The element type of parameters that get resolved. -/
  type : DataType
  random : RandomSource

abbrev Run (α : Type) := ExceptT Error (StateM (Workspace α))

namespace Workspace

variable {α : Type}

def seeded (seed : Nat) : Workspace α := ⟨#[], #[], 0, false, .float32, .ofSeed seed⟩

/-- The state of a parameter. -/
def slot (w : Workspace α) (i : Nat) : Slot α := w.slots.getD i (.declare "" .weight)

def content? (w : Workspace α) (slot : Nat) : Option (Content α) := do (← w.slots[slot]?).content

/-- Whether a handle has an array behind it. -/
def holds (w : Workspace α) : Tensor → Bool
  | .weight slot => (w.content? slot).isSome
  | .node id => id < w.nodes.size

def value (w : Workspace α) : Tensor → DenseArray α
  | .weight slot => ((w.content? slot).map (·.data)).getD default
  | .node id => (w.nodes[id]?.map (·.data)).getD default

def gradient (w : Workspace α) : Tensor → Option (DenseArray α)
  | .weight slot => (w.content? slot).bind (·.grad)
  | .node id => w.nodes[id]?.bind (·.grad)

def requiresGrad (w : Workspace α) : Tensor → Bool
  | .weight slot => ((w.content? slot).map (·.requiresGrad)).getD false
  | .node id => (w.nodes[id]?.map (·.requiresGrad)).getD false

/-- An array as it is shown, without its values. -/
def text (w : Workspace α) (t : Tensor) : String :=
  "Tensor \x7b shape: " ++ Extents.text (w.value t).extents ++ ", requires_grad: " ++
    toString (w.requiresGrad t) ++ " \x7d"

def modifySlot (w : Workspace α) (slot : Nat) (f : Slot α → Slot α) : Workspace α :=
  { w with slots := w.slots.modify slot f }

def modifyNode (w : Workspace α) (id : Nat) (f : Node α → Node α) : Workspace α :=
  { w with nodes := w.nodes.modify id f }

def modifyContent (w : Workspace α) (slot : Nat) (f : Content α → Content α) : Workspace α :=
  w.modifySlot slot fun p => { p with content := p.content.map f }

def setGradient (w : Workspace α) (t : Tensor) (g : Option (DenseArray α)) : Workspace α :=
  match t with
  | .weight slot => w.modifyContent slot fun c => { c with grad := g }
  | .node id => w.modifyNode id fun n => { n with grad := g }

def setValue (w : Workspace α) (t : Tensor) (a : DenseArray α) : Workspace α :=
  match t with
  | .weight slot => w.modifyContent slot fun c => { c with data := a }
  | .node id => w.modifyNode id fun n => { n with data := a }

end Workspace

namespace Run

variable {α β : Type}

/-- The outcome of a computation that does not look at the workspace. -/
def check (x : Except Error β) : Run α β := ExceptT.mk (pure x)

def value (t : Tensor) : Run α (DenseArray α) := return (← get).value t

/-- The handle of a resolved parameter. -/
def weight (slot : Nat) : Run α Tensor := do
  let _ ← check ((← get).slot slot).require
  return .weight slot

/-- A node that nothing was computed for. -/
def leaf (data : DenseArray α) (requiresGrad : Bool) : Run α Tensor :=
  modifyGet fun w =>
    (.node w.nodes.size, { w with nodes := w.nodes.push ⟨data, none, requiresGrad, none⟩ })

/-- A node for a result. How it was computed is recorded unless recording is paused or no input
wants a gradient. -/
def record (op : Operation α) (data : DenseArray α) : Run α Tensor :=
  modifyGet fun w =>
    let tracked := w.pauses == 0 && op.inputs.any w.requiresGrad
    (.node w.nodes.size,
      { w with nodes := w.nodes.push ⟨data, none, tracked, if tracked then some op else none⟩ })

/-- Adds to the gradient of an array that wants one. -/
def addGradient [Zero α] [Add α] (t : Tensor) (g : DenseArray α) : Run α Unit := do
  let w ← get
  if w.requiresGrad t then
    let s := (w.value t).extents
    if s = g.extents then
      let total :=
        match w.gradient t with
        | some old => old.zipWith (· + ·) g
        | none => g
      set (w.setGradient t (some total))
    else throw (.shapeMismatch "gradient accumulation" (.extents s) (.extents g.extents))

def dropGradient (t : Tensor) : Run α Unit := modify (·.setGradient t none)

/-- Computes without recording, whatever comes of it. -/
def paused (x : Run α β) : Run α β := fun w =>
  let (r, w) := x { w with pauses := w.pauses + 1 }
  (r, { w with pauses := w.pauses - 1 })

/-- Draws from the source of random numbers. -/
def draw (d : Draw β) : Run α β :=
  modifyGet fun w =>
    let (b, random) := d.run w.random
    (b, { w with random })

end Run

end NeuralNet
