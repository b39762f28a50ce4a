import NeuralNet.Layer.Basic
import NeuralNet.Tape.Compute

/-!
What a layer computes. Parameters are given as slots, in the order in which the layer declares them.
-/

namespace NeuralNet

variable {α : Type} [Scalar α]

def Activation.apply : Activation → Tensor → Run α Tensor
  | .relu, x => x.relu
  | .sigmoid, x => x.sigmoid
  | .tanh, x => x.tanh

/-- What a cell carries from one time step to the next. -/
structure CellState where
  state : Tensor
  /-- Left alone by cells without a memory. -/
  memory : Tensor

namespace Cell

/-- A gate: the sum of two slices, squashed. -/
def gate (input hidden : Tensor) (start size : Nat) : Run α Tensor := do
  let a ← input.slice start (start + size)
  let b ← hidden.slice start (start + size)
  (← a.add b).sigmoid

/-- One time step, from what the input and the last state contribute to all gates. -/
def step (c : Cell) (size : Nat) (input hidden : Tensor) (s : CellState) : Run α CellState :=
  match c with
  | rnn activation => do
    return ⟨← activation.apply (← input.add hidden), s.memory⟩
  | lstm => do
    let gates ← input.add hidden
    let enter ← (← gates.slice 0 size).sigmoid
    let forget ← (← gates.slice size (2 * size)).sigmoid
    let candidate ← (← gates.slice (2 * size) (3 * size)).tanh
    let leave ← (← gates.slice (3 * size) (4 * size)).sigmoid
    let memory ← (← forget.mul s.memory).add (← enter.mul candidate)
    return ⟨← leave.mul (← memory.tanh), memory⟩
  | gru => do
    let reset ← gate input hidden 0 size
    let update ← gate input hidden size size
    let a ← input.slice (2 * size) (3 * size)
    let b ← reset.mul (← hidden.slice (2 * size) (3 * size))
    let candidate ← (← a.add b).tanh
    return ⟨← candidate.add (← update.mul (← s.state.sub candidate)), s.memory⟩

/-- The parameters of a cell. -/
structure Weights where
  inputWeight : Nat
  inputBias : Nat
  hiddenWeight : Nat
  hiddenBias : Nat

/-- Time step `t`, for the gates that the input contributes to all steps. -/
def stepAt (c : Cell) (size : Nat) (inputs hiddenWeight hiddenBias : Tensor) (s : CellState)
    (t : Nat) : Run α CellState := do
  let input ← inputs.select 1 t
  let hidden ← (← s.state.matmul hiddenWeight).add hiddenBias
  c.step size input hidden s

/-- The states after every step, and the last one. -/
def unroll (c : Cell) (size : Nat) (inputs hiddenWeight hiddenBias : Tensor) :
    List Nat → CellState → Run α (List Tensor × CellState)
  | [], s => return ([], s)
  | t :: rest, s => do
    let s ← c.stepAt size inputs hiddenWeight hiddenBias s t
    let (states, last) ← unroll c size inputs hiddenWeight hiddenBias rest s
    return (s.state :: states, last)

/-- Runs over a batch of sequences from zero states: the sequences of states, and the last ones. -/
def run (c : Cell) (size batch time : Nat) (w : Weights) (x : Tensor) :
    Run α (Tensor × CellState) := do
  let weighted ← x.matmul (← Run.weight w.inputWeight)
  let inputs ← weighted.add (← Run.weight w.inputBias)
  let hiddenWeight ← Run.weight w.hiddenWeight
  let hiddenBias ← Run.weight w.hiddenBias
  let start : CellState :=
    ⟨← Run.leaf (.zeros [batch, size]) false, ← Run.leaf (.zeros [batch, size]) false⟩
  let (states, last) ← c.unroll size inputs hiddenWeight hiddenBias (List.range time) start
  let sequence ←
    if states.isEmpty then Run.leaf (.zeros [batch, 0, size]) false else Tensor.stack states 1
  return (sequence, last)

end Cell

namespace RecurrentLayer

/-- The slots of every cell. -/
def weights : List Nat → List Cell.Weights
  | a :: b :: c :: d :: rest => ⟨a, b, c, d⟩ :: weights rest
  | _ => []

/-- Every cell reads the sequence of the one below. -/
def runCells (r : RecurrentLayer) (batch time : Nat) :
    List Cell.Weights → Tensor → Run α (Tensor × List CellState)
  | [], x => return (x, [])
  | w :: rest, x => do
    let (x, last) ← r.cell.run r.stateSize batch time w x
    let (x, others) ← runCells r batch time rest x
    return (x, last :: others)

/-- The sequence of the topmost cell, and the last states if they are asked for. -/
def forward (r : RecurrentLayer) (slots : List Nat) (x : Tensor) : Run α (List Tensor) := do
  match (← Run.value x).extents with
  | [batch, time, _] => do
    let (sequence, last) ← r.runCells batch time (weights slots) x
    if !r.returnState then return [sequence]
    let state ← Tensor.stack (last.map (·.state)) 0
    if !r.cell.hasMemory then return [sequence, state]
    return [sequence, state, ← Tensor.stack (last.map (·.memory)) 0]
  | s =>
    throw (.shapeMismatch "recurrent input" (.words "(batch, time, features)") (.extents s))

end RecurrentLayer

namespace Layer

/-- The only input of a layer. -/
def singleInput (block : String) : List Tensor → Run α Tensor
  | [x] => return x
  | inputs => throw (.invalidArgument (.inputCount block inputs.length))

def slotAt (slots : List Nat) (i : Nat) : Nat := slots.getD i 0

/-- The outputs of a layer. -/
def forward (l : Layer) (slots : List Nat) (inputs : List Tensor) : Run α (List Tensor) := do
  let x ← singleInput l.name inputs
  match l with
  | linear _ bias =>
    let y ← x.matmul (← Run.weight (slotAt slots 0))
    if bias then return [← y.add (← Run.weight (slotAt slots 1))] else return [y]
  | conv c =>
    let bias ← if c.bias then some <$> Run.weight (slotAt slots 1) else pure none
    return [← x.convolve (← Run.weight (slotAt slots 0)) bias c.stride c.padding]
  | batchNorm axis epsilon momentum =>
    let gamma ← Run.weight (slotAt slots 0)
    let beta ← Run.weight (slotAt slots 1)
    let mean ← Run.weight (slotAt slots 2)
    let variance ← Run.weight (slotAt slots 3)
    let training := (← get).training
    return [← x.normalize gamma beta mean variance ⟨axis, epsilon, momentum, training⟩]
  | dropout rate => if (← get).training then return [← x.dropout rate.value] else return [x]
  | flatten =>
    match (← Run.value x).extents with
    | [] => throw (.invalidArgument (.rankZero "flatten" "input"))
    | batch :: rest => return [← x.reshape [batch, Extents.size rest]]
  | activation a => return [← a.apply x]
  | embedding _ _ | wordEmbedding _ _ =>
    let table ← Run.weight (slotAt slots 0)
    return [← x.embedding table]
  | recurrent r => r.forward slots x

end Layer

end NeuralNet
