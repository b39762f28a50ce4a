import NeuralNet.Tape.Workspace

/-!
Sending a gradient back over the tape. A node is visited after everything on the way from the root
that was computed from it, so its gradient is complete when it is passed on.
-/

namespace NeuralNet

variable {α : Type}

namespace Workspace

/-- The nodes that a node was computed from. A node comes after them on the tape. -/
def sources (w : Workspace α) (id : Nat) : List Nat :=
  match w.nodes[id]?.bind (·.origin) with
  | some op =>
    op.inputs.filterMap fun
      | .node source => if source < id then some source else none
      | .weight _ => none
  | none => []

theorem lt_of_mem_sources {w : Workspace α} {id source : Nat} (h : source ∈ w.sources id) :
    source < id := by
  unfold sources at h
  split at h
  · obtain ⟨t, _, ht⟩ := List.mem_filterMap.1 h
    cases t with
    | node n =>
      simp only [Option.ite_none_right_eq_some, Option.some.injEq] at ht
      omega
    | weight n => simp at ht
  · simp at h

/-- Puts a node before `done`, and between the two what it was computed from and is not there. -/
def visit (w : Workspace α) (id : Nat) (done : List Nat) : List Nat :=
  if id ∈ done then done
  else id :: (w.sources id).attach.foldl (fun done s => w.visit s.1 done) done
termination_by id
decreasing_by exact lt_of_mem_sources s.2

/-- Every node that the root was computed from, each before those it was computed from itself. -/
def order (w : Workspace α) : Tensor → List Nat
  | .node id => w.visit id []
  | .weight _ => []

end Workspace

namespace Run

variable [Scalar α]

/-- Passes the gradient of a node on to those of its inputs that want one. -/
def passOn (id : Nat) : Run α Unit := do
  let some node := (← get).nodes[id]? | return
  match node.grad, node.origin with
  | some g, some op =>
    op.inputs.zipIdx.forM fun (t, position) => do
      addGradient t (← check (op.pullback (← get).value position g))
  | _, _ => return

/-- Sends a gradient of ones from the root to everything it was computed from. -/
def backward (root : Tensor) : Run α Unit := do
  let w ← get
  addGradient root (.ones (w.value root).extents)
  (w.order root).forM passOn

end Run

end NeuralNet
