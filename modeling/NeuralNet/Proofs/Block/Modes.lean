import NeuralNet.Proofs.Block.Frame

/-!
# Parts of a block in modes of their own

Every layer is in training or in evaluation by itself, and switching a sequence switches all that it
holds. A workspace tells one mode for all layers. It does so for blocks that were switched as a
whole: `Moded.forward_setTraining`.
-/

namespace NeuralNet

variable {α β γ : Type}

namespace Run

/-- Computes in a mode, and goes back to the mode before, whatever comes of it. -/
def inMode (training : Bool) (x : Run α β) : Run α β := fun w =>
  let (r, w') := x { w with training }
  (r, { w' with training := w.training })

variable {training : Bool} {x : Run α β} {w : Workspace α}

/-- What leaves the mode alone can be switched step by step. -/
theorem inMode_bind (hx : ∀ w, (x w).2.training = w.training) (f : β → Run α γ) :
    inMode training (x >>= f) = inMode training x >>= fun b => inMode training (f b) := by
  funext w
  have hmode : (x { w with training }).2.training = training := hx _
  unfold inMode
  rw [bind_apply, bind_apply]
  match x { w with training }, hmode with
  | (.error e, w'), _ => rfl
  | (.ok b, w'), hmode =>
    have hback : { w' with training } = w' := by
      rw [← hmode]
    dsimp only
    rw [hback]

/-- In a workspace that is in the mode already, nothing has to be switched. -/
theorem inMode_of_mode (hx : (x w).2.training = w.training) : inMode w.training x w = x w := by
  change ((x w).1, { (x w).2 with training := w.training }) = x w
  rw [← hx]
  rfl

end Run

/-- The mode stays as it is. -/
def Frame.mode : Frame α where
  Rel w w' := w'.training = w.training
  refl _ := rfl
  trans h k := k.trans h
  push _ _ := rfl
  random _ _ _ := rfl

namespace Block

open Run

/-- A block with the mode of every part of it. -/
inductive Moded where
  | leaf (training : Bool) (layer : Layer) (slots : List Nat)
  | sequential (training : Bool) (children : List Moded)

namespace Moded

def isTraining : Moded → Bool
  | leaf training _ _ | sequential training _ => training

mutual

/-- The block without the modes. -/
def block : Moded → Block
  | leaf _ l slots => .leaf l slots
  | sequential _ ms => .sequential (blocks ms)

def blocks : List Moded → List Block
  | [] => []
  | m :: rest => m.block :: blocks rest

end

mutual

/-- Switches a block with all that it holds. -/
def setTraining (training : Bool) : Moded → Moded
  | leaf _ l slots => leaf training l slots
  | sequential _ ms => sequential training (setTrainingAll training ms)

def setTrainingAll (training : Bool) : List Moded → List Moded
  | [] => []
  | m :: rest => m.setTraining training :: setTrainingAll training rest

end

mutual

theorem block_setTraining (training : Bool) : (m : Moded) →
    (m.setTraining training).block = m.block
  | leaf _ _ _ => rfl
  | sequential _ ms => congrArg Block.sequential (blocks_setTrainingAll training ms)

theorem blocks_setTrainingAll (training : Bool) : (ms : List Moded) →
    blocks (setTrainingAll training ms) = blocks ms
  | [] => rfl
  | m :: ms =>
    congrArg₂ List.cons (block_setTraining training m) (blocks_setTrainingAll training ms)

end

variable [Scalar α]

mutual

/-- The outputs of a block, each layer of which computes in its own mode. -/
def forward : Moded → List Tensor → Run α (List Tensor)
  | leaf training l slots, ts => inMode training (l.forward slots ts)
  | sequential _ ms, ts => forwardAll ms ts

def forwardAll : List Moded → List Tensor → Run α (List Tensor)
  | [], ts => pure ts
  | m :: rest, ts => m.forward ts >>= forwardAll rest

end

end Moded

/-! ## Blocks in one mode -/

variable [Scalar α]

theorem training_forward (b : Block) (ts : List Tensor) (w : Workspace α) :
    (b.forward ts w).2.training = w.training :=
  forward_keeps (F := .mode) b ts (fun i _ w a _ _ => w.training_setValue (.weight i) a) w

namespace Moded

mutual

/-- A block that was switched as a whole computes as in a workspace of that mode. -/
theorem forward_setTraining (training : Bool) : (m : Moded) → (ts : List Tensor) →
    ((m.setTraining training).forward ts : Run α (List Tensor)) =
      inMode training (m.block.forward ts)
  | leaf _ _ _, _ => rfl
  | sequential _ ms, ts => forwardAll_setTrainingAll training ms ts

theorem forwardAll_setTrainingAll (training : Bool) : (ms : List Moded) → (ts : List Tensor) →
    (forwardAll (setTrainingAll training ms) ts : Run α (List Tensor)) =
      inMode training (Block.forwardAll (blocks ms) ts)
  | [], ts => rfl
  | m :: ms, ts => by
    unfold setTrainingAll forwardAll blocks Block.forwardAll
    rw [inMode_bind (training_forward m.block ts), forward_setTraining training m ts]
    exact congrArg _ (funext (forwardAll_setTrainingAll training ms))

end

theorem forward_of_mode (m : Moded) (ts : List Tensor) (w : Workspace α) :
    (m.setTraining w.training).forward ts w = m.block.forward ts w := by
  rw [forward_setTraining]
  exact inMode_of_mode (training_forward m.block ts w)

end Moded

end Block

end NeuralNet
