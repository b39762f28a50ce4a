import NeuralNet.Block.Basic
import NeuralNet.Proofs.Tape.OnTop

/-!
# Going forward on top of a tape

A block that goes forward refers to nothing on the tape but its inputs, so what lies below them makes
no difference, `Block.forward_onTop`.
-/

namespace NeuralNet

open Run

variable {α : Type} [Scalar α] {P : Array (Node α)}

def CellState.raise (n : Nat) (s : CellState) : CellState := ⟨s.state.raise n, s.memory.raise n⟩

namespace Cell

theorem gate_onTop (input hidden : Tensor) (start size : Nat) :
    OnTop P (·.raise P.size) (gate input hidden start size : Run α Tensor)
      (gate (input.raise P.size) (hidden.raise P.size) start size) :=
  (OnTop.rearrange _ _).bind fun _ => (OnTop.rearrange _ _).bind fun _ =>
    (OnTop.add _ _).bind fun _ => .sigmoid _

theorem activation_onTop (a : Activation) (x : Tensor) :
    OnTop P (·.raise P.size) (a.apply x : Run α Tensor) (a.apply (x.raise P.size)) := by
  cases a with
  | relu => exact .relu x
  | sigmoid => exact .sigmoid x
  | tanh => exact .tanh x

theorem step_onTop (c : Cell) (size : Nat) (input hidden : Tensor) (s : CellState) :
    OnTop P (·.raise P.size) (c.step size input hidden s : Run α CellState)
      (c.step size (input.raise P.size) (hidden.raise P.size) (s.raise P.size)) := by
  cases c with
  | rnn a =>
    exact (OnTop.add _ _).bind fun _ => (activation_onTop a _).bind fun _ => .pure rfl
  | lstm =>
    refine (OnTop.add _ _).bind fun gates => ?_
    refine (OnTop.rearrange _ _).bind fun _ => (OnTop.sigmoid _).bind fun enter => ?_
    refine (OnTop.rearrange _ _).bind fun _ => (OnTop.sigmoid _).bind fun forget => ?_
    refine (OnTop.rearrange _ _).bind fun _ => (OnTop.tanh _).bind fun candidate => ?_
    refine (OnTop.rearrange _ _).bind fun _ => (OnTop.sigmoid _).bind fun leave => ?_
    refine (OnTop.mul _ _).bind fun _ => (OnTop.mul _ _).bind fun _ => ?_
    exact (OnTop.add _ _).bind fun _ => (OnTop.tanh _).bind fun _ => (OnTop.mul _ _).bind fun _ =>
      .pure rfl
  | gru =>
    refine (gate_onTop _ _ _ _).bind fun reset => (gate_onTop _ _ _ _).bind fun update => ?_
    refine (OnTop.rearrange _ _).bind fun _ => (OnTop.rearrange _ _).bind fun _ => ?_
    refine (OnTop.mul _ _).bind fun _ => (OnTop.add _ _).bind fun _ => ?_
    refine (OnTop.tanh _).bind fun candidate => ?_
    exact (OnTop.sub _ _).bind fun _ => (OnTop.mul _ _).bind fun _ => (OnTop.add _ _).bind fun _ =>
      .pure rfl

theorem stepAt_onTop (c : Cell) (size : Nat) (inputs hiddenWeight hiddenBias : Tensor)
    (s : CellState) (t : Nat) :
    OnTop P (·.raise P.size)
      (c.stepAt size inputs hiddenWeight hiddenBias s t : Run α CellState)
      (c.stepAt size (inputs.raise P.size) (hiddenWeight.raise P.size) (hiddenBias.raise P.size)
        (s.raise P.size) t) :=
  (OnTop.rearrange _ _).bind fun _ => (OnTop.matmul _ _).bind fun _ => (OnTop.add _ _).bind fun _ =>
    step_onTop c size _ _ s

theorem unroll_onTop (c : Cell) (size : Nat) (inputs hiddenWeight hiddenBias : Tensor)
    (times : List Nat) (s : CellState) :
    OnTop P (Prod.map (List.map (·.raise P.size)) (·.raise P.size))
      (c.unroll size inputs hiddenWeight hiddenBias times s : Run α _)
      (c.unroll size (inputs.raise P.size) (hiddenWeight.raise P.size) (hiddenBias.raise P.size)
        times (s.raise P.size)) := by
  induction times generalizing s with
  | nil => exact .pure rfl
  | cons t times ih =>
    exact (stepAt_onTop c size _ _ _ s t).bind fun s => (ih s).bind fun _ => .pure rfl

theorem run_onTop (c : Cell) (size batch time : Nat) (w : Weights) (x : Tensor) :
    OnTop P (Prod.map (·.raise P.size) (·.raise P.size))
      (c.run size batch time w x : Run α _) (c.run size batch time w (x.raise P.size)) := by
  refine (OnTop.weight _).bind fun _ => (OnTop.matmul _ _).bind fun _ => ?_
  refine (OnTop.weight _).bind fun _ => (OnTop.add _ _).bind fun inputs => ?_
  refine (OnTop.weight _).bind fun _ => (OnTop.weight _).bind fun _ => ?_
  refine (OnTop.leaf _ _).bind fun first => (OnTop.leaf _ _).bind fun second => ?_
  refine (unroll_onTop c size _ _ _ _ ⟨first, second⟩).bind fun p => ?_
  obtain ⟨states, last⟩ := p
  dsimp only [Prod.map]
  rw [List.isEmpty_map]
  split
  · exact (OnTop.leaf _ _).bind fun _ => .pure rfl
  · exact (OnTop.stack _ _).bind fun _ => .pure rfl

end Cell

namespace RecurrentLayer

theorem runCells_onTop (r : RecurrentLayer) (batch time : Nat) (ws : List Cell.Weights)
    (x : Tensor) :
    OnTop P (Prod.map (·.raise P.size) (List.map (·.raise P.size)))
      (r.runCells batch time ws x : Run α _) (r.runCells batch time ws (x.raise P.size)) := by
  induction ws generalizing x with
  | nil => exact .pure rfl
  | cons w ws ih =>
    exact (Cell.run_onTop r.cell _ _ _ w x).bind fun p => (ih p.1).bind fun _ => .pure rfl

theorem forward_onTop (r : RecurrentLayer) (slots : List Nat) (x : Tensor) :
    OnTop P (List.map (·.raise P.size)) (r.forward slots x : Run α _)
      (r.forward slots (x.raise P.size)) := by
  refine (OnTop.value x).bind fun a => ?_
  dsimp only [id]
  split
  · refine (runCells_onTop r _ _ _ x).bind fun p => ?_
    obtain ⟨sequence, last⟩ := p
    dsimp only [Prod.map]
    have hlast (g : CellState → Tensor) (hg : ∀ s, g (s.raise P.size) = (g s).raise P.size) :
        (last.map (·.raise P.size)).map g = (last.map g).map (·.raise P.size) := by
      rw [List.map_map, List.map_map]
      exact List.map_congr_left fun s _ => hg s
    rw [hlast (·.state) fun _ => rfl, hlast (·.memory) fun _ => rfl]
    split
    · exact .pure rfl
    · refine (OnTop.stack _ _).bind fun _ => ?_
      split
      · exact .pure rfl
      · exact (OnTop.stack _ _).bind fun _ => .pure rfl
  · exact .throw _ _

end RecurrentLayer

namespace Layer

omit [Scalar α] in
theorem singleInput_onTop (block : String) (ts : List Tensor) :
    OnTop P (·.raise P.size) (singleInput block ts : Run α Tensor)
      (singleInput block (ts.map (·.raise P.size))) := by
  match ts with
  | [] => exact .throw _ _
  | [t] => exact .pure rfl
  | _ :: _ :: rest =>
    simp only [singleInput, List.map_cons, List.length_cons, List.length_map]
    exact .throw _ _

theorem forward_onTop (l : Layer) (slots : List Nat) (ts : List Tensor) :
    OnTop P (List.map (·.raise P.size)) (l.forward slots ts : Run α (List Tensor))
      (l.forward slots (ts.map (·.raise P.size))) := by
  refine (singleInput_onTop _ ts).bind fun t => ?_
  cases l with
  | linear units bias =>
    refine (OnTop.weight _).bind fun _ => (OnTop.matmul _ _).bind fun _ => ?_
    split
    · exact (OnTop.weight _).bind fun _ => (OnTop.add _ _).bind fun _ => .pure rfl
    · exact .pure rfl
  | conv c =>
    dsimp only
    split
    · refine OnTop.bind (f := Option.map (·.raise P.size)) ((OnTop.weight _).map fun _ => rfl) ?_
      exact fun _ => (OnTop.weight _).bind fun _ => (OnTop.convolve _ _ _ _ _).bind fun _ => .pure rfl
    · refine OnTop.bind (f := Option.map (·.raise P.size)) (.pure rfl) ?_
      exact fun _ => (OnTop.weight _).bind fun _ => (OnTop.convolve _ _ _ _ _).bind fun _ => .pure rfl
  | batchNorm axis epsilon momentum =>
    refine (OnTop.weight _).bind fun _ => (OnTop.weight _).bind fun _ => ?_
    refine (OnTop.weight _).bind fun _ => (OnTop.weight _).bind fun _ => ?_
    refine fun w => onTop_get ?_
    exact onTop_bind (OnTop.normalize _ _ _ _ _ _ w) fun _ => .pure rfl
  | dropout rate =>
    refine fun w => onTop_get ?_
    have hmode : (w.onTop P).training = w.training := rfl
    rw [hmode]
    split
    · exact onTop_bind (OnTop.dropout _ _ w) fun _ => .pure rfl
    · rfl
  | flatten =>
    refine (OnTop.value t).bind fun a => ?_
    dsimp only [id]
    split
    · exact .throw _ _
    · exact (OnTop.rearrange _ _).bind fun _ => .pure rfl
  | activation a => exact (Cell.activation_onTop a t).bind fun _ => .pure rfl
  | embedding rows width | wordEmbedding rows width =>
    exact (OnTop.weight _).bind fun _ => (OnTop.embedding _ _).bind fun _ => .pure rfl
  | recurrent r => exact r.forward_onTop slots t

end Layer

namespace Block

mutual

theorem forward_onTop : (b : Block) → (ts : List Tensor) →
    OnTop P (List.map (·.raise P.size)) (b.forward ts : Run α (List Tensor))
      (b.forward (ts.map (·.raise P.size)))
  | leaf l slots, ts => l.forward_onTop slots ts
  | sequential bs, ts => forwardAll_onTop bs ts

theorem forwardAll_onTop : (bs : List Block) → (ts : List Tensor) →
    OnTop P (List.map (·.raise P.size)) (forwardAll bs ts : Run α (List Tensor))
      (forwardAll bs (ts.map (·.raise P.size)))
  | [], _ => .pure rfl
  | b :: bs, ts => (forward_onTop b ts).bind fun ts' => forwardAll_onTop bs ts'

end

end Block

end NeuralNet
