import NeuralNet.Proofs.Layer.Forward
import NeuralNet.Proofs.Tape.Frame

/-!
# What going forward leaves alone

Going forward a block moves running statistics of its normalizations in training, and nothing else
that was there: a frame that bears this holds across the whole of it, `Block.forward_keeps`. So the
other parameters stay as they are, `Block.slot_forward`.
-/

namespace NeuralNet

open Run

variable {α : Type} [Scalar α] {F : Frame α}

namespace Cell

theorem gate_keeps (input hidden : Tensor) (start size : Nat) :
    Keeps F (gate input hidden start size : Run α Tensor) :=
  (Keeps.rearrange _ _).bind fun _ => (Keeps.rearrange _ _).bind fun _ =>
    (Keeps.add _ _).bind fun _ => .sigmoid _

theorem activation_keeps (a : Activation) (x : Tensor) : Keeps F (a.apply x : Run α Tensor) := by
  cases a with
  | relu => exact .relu x
  | sigmoid => exact .sigmoid x
  | tanh => exact .tanh x

theorem step_keeps (c : Cell) (size : Nat) (input hidden : Tensor) (s : CellState) :
    Keeps F (c.step size input hidden s : Run α CellState) := by
  cases c with
  | rnn a => exact (Keeps.add _ _).bind fun _ => (activation_keeps a _).bind fun _ => .pure _
  | lstm =>
    refine (Keeps.add _ _).bind fun gates => ?_
    refine (Keeps.rearrange _ _).bind fun _ => (Keeps.sigmoid _).bind fun enter => ?_
    refine (Keeps.rearrange _ _).bind fun _ => (Keeps.sigmoid _).bind fun forget => ?_
    refine (Keeps.rearrange _ _).bind fun _ => (Keeps.tanh _).bind fun candidate => ?_
    refine (Keeps.rearrange _ _).bind fun _ => (Keeps.sigmoid _).bind fun leave => ?_
    refine (Keeps.mul _ _).bind fun _ => (Keeps.mul _ _).bind fun _ => ?_
    exact (Keeps.add _ _).bind fun _ => (Keeps.tanh _).bind fun _ => (Keeps.mul _ _).bind fun _ =>
      .pure _
  | gru =>
    refine (gate_keeps _ _ _ _).bind fun reset => (gate_keeps _ _ _ _).bind fun update => ?_
    refine (Keeps.rearrange _ _).bind fun _ => (Keeps.rearrange _ _).bind fun _ => ?_
    refine (Keeps.mul _ _).bind fun _ => (Keeps.add _ _).bind fun _ => ?_
    refine (Keeps.tanh _).bind fun candidate => ?_
    exact (Keeps.sub _ _).bind fun _ => (Keeps.mul _ _).bind fun _ => (Keeps.add _ _).bind fun _ =>
      .pure _

theorem stepAt_keeps (c : Cell) (size : Nat) (inputs hiddenWeight hiddenBias : Tensor)
    (s : CellState) (t : Nat) :
    Keeps F (c.stepAt size inputs hiddenWeight hiddenBias s t : Run α CellState) :=
  (Keeps.rearrange _ _).bind fun _ => (Keeps.matmul _ _).bind fun _ => (Keeps.add _ _).bind fun _ =>
    step_keeps c size _ _ s

theorem unroll_keeps (c : Cell) (size : Nat) (inputs hiddenWeight hiddenBias : Tensor)
    (times : List Nat) (s : CellState) :
    Keeps F (c.unroll size inputs hiddenWeight hiddenBias times s : Run α _) := by
  induction times generalizing s with
  | nil => exact .pure _
  | cons t times ih =>
    exact (stepAt_keeps c size _ _ _ s t).bind fun s => (ih s).bind fun _ => .pure _

theorem run_keeps (c : Cell) (size batch time : Nat) (w : Weights) (x : Tensor) :
    Keeps F (c.run size batch time w x : Run α _) := by
  refine (Keeps.weight _).bind fun _ => (Keeps.matmul _ _).bind fun _ => ?_
  refine (Keeps.weight _).bind fun _ => (Keeps.add _ _).bind fun inputs => ?_
  refine (Keeps.weight _).bind fun _ => (Keeps.weight _).bind fun _ => ?_
  refine (Keeps.leaf _ _).bind fun _ => (Keeps.leaf _ _).bind fun _ => ?_
  refine (unroll_keeps c size _ _ _ _ _).bind fun p => ?_
  dsimp only
  split
  · exact (Keeps.leaf _ _).bind fun _ => .pure _
  · exact (Keeps.stack _ _).bind fun _ => .pure _

end Cell

namespace RecurrentLayer

theorem runCells_keeps (r : RecurrentLayer) (batch time : Nat) (ws : List Cell.Weights)
    (x : Tensor) :
    Keeps F (r.runCells batch time ws x : Run α _) := by
  induction ws generalizing x with
  | nil => exact .pure _
  | cons w ws ih =>
    exact (Cell.run_keeps r.cell _ _ _ w x).bind fun p => (ih p.1).bind fun _ => .pure _

theorem forward_keeps (r : RecurrentLayer) (slots : List Nat) (x : Tensor) :
    Keeps F (r.forward slots x : Run α _) := by
  refine (Keeps.value x).bind fun a => ?_
  split
  · refine (runCells_keeps r _ _ _ x).bind fun p => ?_
    dsimp only
    split
    · exact .pure _
    · refine (Keeps.stack _ _).bind fun _ => ?_
      split
      · exact .pure _
      · exact (Keeps.stack _ _).bind fun _ => .pure _
  · exact .throw _

end RecurrentLayer

namespace Layer

/-- The slots of the running statistics. -/
def statistics (l : Layer) (slots : List Nat) : List Nat :=
  match l with
  | batchNorm _ _ _ => [slotAt slots 2, slotAt slots 3]
  | _ => []

omit [Scalar α] in
theorem singleInput_keeps (block : String) (ts : List Tensor) :
    Keeps F (singleInput block ts : Run α Tensor) := by
  match ts with
  | [] => exact .throw _
  | [t] => exact .pure t
  | _ :: _ :: _ => exact .throw _

theorem forward_keeps (l : Layer) (slots : List Nat) (ts : List Tensor)
    (h : ∀ i ∈ l.statistics slots, F.Moves (.weight i)) :
    Keeps F (l.forward slots ts : Run α (List Tensor)) := by
  refine (singleInput_keeps _ ts).bind fun t => ?_
  cases l with
  | linear units bias =>
    refine (Keeps.weight _).bind fun _ => (Keeps.matmul _ _).bind fun _ => ?_
    split
    · exact (Keeps.weight _).bind fun _ => (Keeps.add _ _).bind fun _ => .pure _
    · exact .pure _
  | conv c =>
    dsimp only
    split
    · exact ((Keeps.weight _).map some).bind fun _ => (Keeps.weight _).bind fun _ =>
        (Keeps.convolve _ _ _ _ _).bind fun _ => .pure _
    · exact (Keeps.pure _).bind fun _ => (Keeps.weight _).bind fun _ =>
        (Keeps.convolve _ _ _ _ _).bind fun _ => .pure _
  | batchNorm axis epsilon momentum =>
    obtain ⟨hmean, hvariance⟩ := List.forall_mem_cons.mp h
    have hvariance := List.forall_mem_singleton.mp hvariance
    intro w
    -- the mode that is read is that of the workspace in which the statistics are moved
    refine rel_weight (rel_weight (rel_weight (rel_weight (rel_get ?_))))
    exact rel_bind (rel_normalize hmean hvariance id) fun _ => .pure _
  | dropout rate =>
    refine fun w => rel_get ?_
    split
    · rename_i htraining
      exact rel_bind (rel_dropout t _ htraining) fun _ => .pure _
    · exact F.refl w
  | flatten =>
    refine (Keeps.value t).bind fun a => ?_
    split
    · exact .throw _
    · exact (Keeps.rearrange _ _).bind fun _ => .pure _
  | activation a => exact (Cell.activation_keeps a t).bind fun _ => .pure _
  | embedding rows width | wordEmbedding rows width =>
    exact (Keeps.weight _).bind fun _ => (Keeps.embedding _ _).bind fun _ => .pure _
  | recurrent r => exact r.forward_keeps slots t

end Layer

namespace Block

mutual

/-- The slots of all running statistics. -/
def statistics : Block → List Nat
  | leaf l slots => l.statistics slots
  | sequential bs => statisticsAll bs

def statisticsAll : List Block → List Nat
  | [] => []
  | b :: rest => b.statistics ++ statisticsAll rest

end

mutual

theorem forward_keeps : (b : Block) → (ts : List Tensor) →
    (∀ i ∈ b.statistics, F.Moves (.weight i)) → Keeps F (b.forward ts : Run α (List Tensor))
  | leaf l slots, ts, h => l.forward_keeps slots ts h
  | sequential bs, ts, h => forwardAll_keeps bs ts h

theorem forwardAll_keeps : (bs : List Block) → (ts : List Tensor) →
    (∀ i ∈ statisticsAll bs, F.Moves (.weight i)) →
    Keeps F (forwardAll bs ts : Run α (List Tensor))
  | [], ts, _ => .pure ts
  | b :: bs, ts, h => by
    obtain ⟨hb, hbs⟩ := List.forall_mem_append.mp h
    exact (forward_keeps b ts hb).bind fun ts' => forwardAll_keeps bs ts' hbs

end

end Block

/-- In training only these slots change, else none. -/
def Frame.sparing (moved : List Nat) : Frame α where
  Rel w w' := w'.training = w.training ∧
    ∀ i, (w.training = true → i ∉ moved) → w'.slot i = w.slot i
  refl _ := ⟨rfl, fun _ _ => rfl⟩
  trans h k := ⟨k.1.trans h.1, fun i hi => (k.2 i (h.1 ▸ hi)).trans (h.2 i hi)⟩
  push _ _ := ⟨rfl, fun _ _ => rfl⟩
  random _ _ _ := ⟨rfl, fun _ _ => rfl⟩

/-- Going forward changes no parameters but running statistics, and these only in training. -/
theorem Block.slot_forward (b : Block) (ts : List Tensor) (w : Workspace α)
    {i : Nat} (h : w.training = true → i ∉ b.statistics) :
    (b.forward ts w).2.slot i = w.slot i := by
  have hmoves : ∀ j ∈ b.statistics, (Frame.sparing b.statistics : Frame α).Moves (.weight j) := by
    refine fun j hj w a htraining _ => ⟨rfl, fun i hi => ?_⟩
    have hne : j ≠ i := fun heq => hi htraining (heq ▸ hj)
    exact Workspace.slot_modifySlot_of_ne hne
  exact (forward_keeps b ts hmoves w).2 i h

end NeuralNet
