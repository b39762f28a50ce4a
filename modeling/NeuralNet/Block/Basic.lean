import NeuralNet.Layer.Forward
import NeuralNet.Layer.Shape

/-!
Blocks: layers, and sequences of blocks. A block names its parameters by the way to them, and two
blocks that hold the same slot share a parameter.
-/

namespace NeuralNet

inductive Block where
  | leaf (layer : Layer) (slots : List Nat)
  | sequential (children : List Block)

namespace Block

def name : Block → String
  | leaf layer _ => layer.name
  | sequential _ => "sequential"

def children : Block → List Block
  | leaf _ _ => []
  | sequential bs => bs

/-- The name of a child at a place counted from 1, which has at least two digits. -/
def childName (place : Nat) (b : Block) : String :=
  (if place < 10 then "0" else "") ++ toString place ++ b.name

mutual

/-- All parameters by their keys: those of the children after each other, under their names. -/
def parameters : Block → List (String × Nat)
  | leaf layer slots => (layer.declared.map (·.1)).zip slots
  | sequential bs => parametersFrom 1 bs

def parametersFrom (place : Nat) : List Block → List (String × Nat)
  | [] => []
  | b :: rest =>
    b.parameters.map (fun (key, slot) => (childName place b ++ "_" ++ key, slot)) ++
      parametersFrom (place + 1) rest

end

def slots (b : Block) : List Nat := b.parameters.map (·.2)

mutual

/-- The shapes of the outputs; in a sequence every block takes the outputs of the one before. -/
def outputShapes : Block → List Shape → Except Error (List Shape)
  | leaf layer _, inputs => layer.outputShapes inputs
  | sequential bs, inputs => outputShapesAll bs inputs

def outputShapesAll : List Block → List Shape → Except Error (List Shape)
  | [], inputs => .ok inputs
  | b :: rest, inputs => do outputShapesAll rest (← b.outputShapes inputs)

end

/-- What every block of a sequence takes; the last one has to accept its inputs too. -/
def inputsAll : List Block → List Shape → Except Error (List (List Shape))
  | [], _ => .ok []
  | b :: rest, inputs => do
    let outputs ← b.outputShapes inputs
    return inputs :: (← inputsAll rest outputs)

def childInputs (b : Block) (inputs : List Shape) : Except Error (List (List Shape)) :=
  inputsAll b.children inputs

/-- The extents of a parameter of the block itself; a sequence has none. -/
def parameterShape (b : Block) (name : String) (inputs : List Shape) : Except Error Extents :=
  match b with
  | leaf layer _ => layer.parameterShape name inputs
  | sequential _ => .error (.invalidArgument (.undeclaredParameter "sequential" name))

mutual

/-- Every slot with the extents that the inputs ask for. -/
def plan : Block → List Shape → Except Error (List (Nat × Extents))
  | leaf layer slots, inputs =>
    ((layer.declared.map (·.1)).zip slots).mapM fun (name, slot) => do
      return (slot, ← layer.parameterShape name inputs)
  | sequential bs, inputs => do planAll bs (← inputsAll bs inputs)

def planAll : List Block → List (List Shape) → Except Error (List (Nat × Extents))
  | b :: rest, inputs :: others => do
    let first ← b.plan inputs
    return first ++ (← planAll rest others)
  | _, _ => .ok []

end

variable {α : Type}

/-- A layer with parameters of its own. -/
def ofLayer (layer : Layer) : Run α Block :=
  modifyGet fun w =>
    let declared := layer.declared.map fun (name, kind) => Slot.declare name kind
    (leaf layer (List.range' w.slots.size declared.length),
      { w with slots := w.slots ++ declared.toArray })

def isResolved (b : Block) (w : Workspace α) : Bool := b.slots.all fun i => (w.slot i).isResolved

variable [Scalar α]

mutual

/-- The outputs of a block. -/
def forward : Block → List Tensor → Run α (List Tensor)
  | leaf layer slots, inputs => layer.forward slots inputs
  | sequential bs, inputs => forwardAll bs inputs

def forwardAll : List Block → List Tensor → Run α (List Tensor)
  | [], inputs => return inputs
  | b :: rest, inputs => do forwardAll rest (← b.forward inputs)

end

/-- Gives a slot its first values. -/
def resolveSlot (fallback : Initializer) (i : Nat) (s : Extents) : Run α Unit := do
  let w ← get
  let (p, random) ← Run.check ((w.slot i).resolve fallback s w.type w.random)
  set { w.modifySlot i fun _ => p with random }

/-- Gives every parameter the extents that the inputs ask for, after checking that those which have
extents already have these. -/
def resolve (b : Block) (fallback : Initializer) (inputs : List Shape) : Run α (List Shape) := do
  let w ← get
  let plan ← Run.check (b.plan inputs)
  let resolved ← Run.check (plan.mapM fun (i, s) => (w.slot i).checkCompatible s w.type)
  let pending := (plan.zip resolved).filterMap fun (entry, done) =>
    if done then none else some entry
  pending.forM fun (i, s) => resolveSlot fallback i s
  Run.check (b.outputShapes inputs)

end Block

end NeuralNet
