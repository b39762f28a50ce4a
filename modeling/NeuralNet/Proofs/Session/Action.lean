import NeuralNet.Optimizer.Step
import NeuralNet.Proofs.Block.Frame
import NeuralNet.SafeTensors.Import

/-!
# Sessions

A session is a sequence of actions on a workspace, each of which may fail: what it did before stays
done. An action that is given handles or slots is given any. An optimizer comes to every step with
any moments.
-/

namespace NeuralNet.Session

inductive Action where
  | declare (l : Layer)
  | setType (t : DataType)
  | setTraining (training : Bool)
  | withInitializer (slot : Nat) (initializer : Initializer)
  | resolve (b : Block) (fallback : Initializer) (inputs : List Shape)
  | setArray (slot : Nat) (t : DataType) (a : DenseArray Single)
  | setTrainable (slot : Nat) (trainable : Bool)
  | requantize (slot : Nat)
  | load (ps : ParameterList) (exact : Bool) (source : ByteSource)
  | importTensors (ps : ParameterList) (bytes : List UInt8)
  | leaf (a : DenseArray Single) (grad : Bool)
  | forward (b : Block) (ts : List Tensor)
  | loss (l : Loss) (prediction label : Tensor)
  | backward (root : Tensor)
  | addGradient (t : Tensor) (g : DenseArray Single)
  | dropGradient (t : Tensor)
  | step (o : Optimizer Single)

namespace Action

/-- The workspace after an action, whatever came of it. -/
def run : Action → Workspace Single → Workspace Single
  | declare l, w => (Block.ofLayer l w).2
  | setType t, w => { w with type := t }
  | setTraining training, w => { w with training }
  | withInitializer i initializer, w => w.modifySlot i (·.withInitializer initializer)
  | resolve b fallback inputs, w => (b.resolve fallback inputs w).2
  | setArray i t a, w => (ParameterList.storeOne ⟨i, t, a⟩ w).2
  | setTrainable i trainable, w => w.modifySlot i (·.setTrainable trainable)
  | requantize i, w => w.modifySlot i (·.requantize)
  | load ps exact source, w => (ps.load exact source w).2
  | importTensors ps bytes, w => (SafeTensors.load ps bytes w).2
  | leaf a grad, w => (Run.leaf a grad w).2
  | forward b ts, w => (b.forward ts w).2
  | loss l prediction label, w => (l.apply prediction label w).2
  | backward root, w => (Run.backward root w).2
  | addGradient t g, w => (Run.addGradient t g w).2
  | dropGradient t, w => (Run.dropGradient t w).2
  | step o, w => (o.step w).2.2

end Action

/-- The workspace after a session. -/
def runAll (actions : List Action) (w : Workspace Single) : Workspace Single :=
  actions.foldl (fun w a => a.run w) w

end NeuralNet.Session
