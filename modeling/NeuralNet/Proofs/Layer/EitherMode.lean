import NeuralNet.Proofs.Tape.Frame

/-!
# Computing the same in either mode

Only dropping values and normalizing ask for the mode. All that a recurrent layer does is done in
training as in evaluation: `RecurrentLayer.forward_indifferent`.
-/

namespace NeuralNet

variable {α β γ : Type}

namespace Run

/-- What comes of the computation does not depend on the mode, which it leaves alone. -/
def Indifferent (x : Run α β) : Prop :=
  ∀ w training, x { w with training } = ((x w).1, { (x w).2 with training })

variable {x : Run α β} {f : β → Run α γ}

theorem Indifferent.pure (b : β) : Indifferent (Pure.pure b : Run α β) := fun _ _ => rfl

theorem Indifferent.throw (e : Error) : Indifferent (throw e : Run α β) := fun _ _ => rfl

theorem Indifferent.check (y : Except Error β) : Indifferent (check y : Run α β) := fun _ _ => rfl

theorem Indifferent.value (t : Tensor) : Indifferent (value t : Run α (DenseArray α)) :=
  fun _ _ => rfl

theorem Indifferent.leaf (data : DenseArray α) (grad : Bool) : Indifferent (leaf data grad) :=
  fun _ _ => rfl

theorem Indifferent.record (op : Operation α) (data : DenseArray α) :
    Indifferent (record op data) := fun _ _ => rfl

theorem Indifferent.bind (hx : Indifferent x) (hf : ∀ b, Indifferent (f b)) :
    Indifferent (x >>= f) := by
  intro w training
  rw [bind_apply, bind_apply, hx w training]
  match x w with
  | (.ok b, w') => exact hf b w' training
  | (.error e, w') => rfl

/-- Of the workspace no more is looked at than is the same in either mode. -/
theorem Indifferent.get {f : Workspace α → Run α γ}
    (hsame : ∀ w training, f { w with training } = f w) (hf : ∀ w, Indifferent (f w)) :
    Indifferent ((get : Run α (Workspace α)) >>= f) := by
  intro w training
  change f { w with training } { w with training } = _
  rw [hsame]
  exact hf w w training

theorem Indifferent.weight (i : Nat) : Indifferent (weight i : Run α Tensor) :=
  .get (fun _ _ => rfl) fun _ => .bind (.check _) fun _ => .pure _

theorem Indifferent.mapM {f : γ → Run α β} (cs : List γ) (hf : ∀ c, Indifferent (f c)) :
    Indifferent (cs.mapM f) := by
  induction cs with
  | nil => exact .pure []
  | cons c cs ih =>
    rw [List.mapM_cons]
    exact (hf c).bind fun b => ih.bind fun bs => .pure (b :: bs)

/-- An operation on one array. -/
theorem Indifferent.unary (a : Tensor) (op : DenseArray α → Operation α)
    (y : DenseArray α → DenseArray α) :
    Indifferent (Run.value a >>= fun x => Run.record (op x) (y x)) :=
  (Indifferent.value a).bind fun _ => .record _ _

/-- An operation on two arrays that may not go together. -/
theorem Indifferent.binary (a b : Tensor) (op : DenseArray α → DenseArray α → Operation α)
    (y : DenseArray α → DenseArray α → Except Error (DenseArray α)) :
    Indifferent (Run.value a >>= fun x => Run.value b >>= fun x' =>
      Run.check (y x x') >>= fun z => Run.record (op x x') z) :=
  (Indifferent.value a).bind fun _ => (Indifferent.value b).bind fun _ =>
    (Indifferent.check _).bind fun _ => .record _ _

variable [Scalar α]

theorem Indifferent.add (a b : Tensor) : Indifferent (a.add b : Run α Tensor) := .binary a b _ _

theorem Indifferent.sub (a b : Tensor) : Indifferent (a.sub b : Run α Tensor) := .binary a b _ _

theorem Indifferent.mul (a b : Tensor) : Indifferent (a.mul b : Run α Tensor) := .binary a b _ _

theorem Indifferent.matmul (a b : Tensor) : Indifferent (a.matmul b : Run α Tensor) :=
  .binary a b _ _

theorem Indifferent.sigmoid (a : Tensor) : Indifferent (a.sigmoid : Run α Tensor) := .unary a _ _

theorem Indifferent.tanh (a : Tensor) : Indifferent (a.tanh : Run α Tensor) := .unary a _ _

theorem Indifferent.activation (f : Activation) (a : Tensor) :
    Indifferent (f.apply a : Run α Tensor) := by
  cases f with
  | relu => exact .unary a _ _
  | sigmoid => exact .sigmoid a
  | tanh => exact .tanh a

theorem Indifferent.rearrange (a : Tensor) (plan : Extents → Except Error Rearrangement) :
    Indifferent (a.rearrange plan : Run α Tensor) :=
  (Indifferent.value a).bind fun _ => (Indifferent.check _).bind fun _ => .record _ _

theorem Indifferent.concat (parts : List Tensor) (axis : Nat) :
    Indifferent (Tensor.concat parts axis : Run α Tensor) :=
  .get (fun _ _ => rfl) fun _ => (Indifferent.check _).bind fun _ => .record _ _

theorem Indifferent.stack (parts : List Tensor) (axis : Nat) :
    Indifferent (Tensor.stack parts axis : Run α Tensor) := by
  refine (Indifferent.mapM parts fun t => (Indifferent.value t).bind fun x => ?_).bind
    fun raised => .concat raised axis
  dsimp only
  split
  · exact .rearrange t _
  · exact .throw _

end Run

open Run

variable [Scalar α]

namespace Cell

theorem gate_indifferent (input hidden : Tensor) (start size : Nat) :
    Indifferent (gate input hidden start size : Run α Tensor) :=
  (Indifferent.rearrange _ _).bind fun _ => (Indifferent.rearrange _ _).bind fun _ =>
    (Indifferent.add _ _).bind fun _ => .sigmoid _

theorem step_indifferent (c : Cell) (size : Nat) (input hidden : Tensor) (s : CellState) :
    Indifferent (c.step size input hidden s : Run α CellState) := by
  cases c with
  | rnn activation =>
    exact (Indifferent.add _ _).bind fun _ => (Indifferent.activation _ _).bind fun _ => .pure _
  | lstm =>
    refine (Indifferent.add _ _).bind fun _ => ?_
    refine (Indifferent.rearrange _ _).bind fun _ => (Indifferent.sigmoid _).bind fun _ => ?_
    refine (Indifferent.rearrange _ _).bind fun _ => (Indifferent.sigmoid _).bind fun _ => ?_
    refine (Indifferent.rearrange _ _).bind fun _ => (Indifferent.tanh _).bind fun _ => ?_
    refine (Indifferent.rearrange _ _).bind fun _ => (Indifferent.sigmoid _).bind fun _ => ?_
    refine (Indifferent.mul _ _).bind fun _ => (Indifferent.mul _ _).bind fun _ => ?_
    refine (Indifferent.add _ _).bind fun _ => (Indifferent.tanh _).bind fun _ => ?_
    exact (Indifferent.mul _ _).bind fun _ => .pure _
  | gru =>
    refine (gate_indifferent _ _ _ _).bind fun _ => (gate_indifferent _ _ _ _).bind fun _ => ?_
    refine (Indifferent.rearrange _ _).bind fun _ => (Indifferent.rearrange _ _).bind fun _ => ?_
    refine (Indifferent.mul _ _).bind fun _ => (Indifferent.add _ _).bind fun _ => ?_
    refine (Indifferent.tanh _).bind fun _ => (Indifferent.sub _ _).bind fun _ => ?_
    exact (Indifferent.mul _ _).bind fun _ => (Indifferent.add _ _).bind fun _ => .pure _

theorem unroll_indifferent (c : Cell) (size : Nat) (inputs weight bias : Tensor) (times : List Nat)
    (s : CellState) : Indifferent (c.unroll size inputs weight bias times s : Run α _) := by
  induction times generalizing s with
  | nil => exact .pure _
  | cons t times ih =>
    refine Indifferent.bind ?_ fun s => (ih s).bind fun _ => .pure _
    exact (Indifferent.rearrange _ _).bind fun _ => (Indifferent.matmul _ _).bind fun _ =>
      (Indifferent.add _ _).bind fun _ => step_indifferent c size _ _ s

theorem run_indifferent (c : Cell) (size batch time : Nat) (w : Weights) (x : Tensor) :
    Indifferent (c.run size batch time w x : Run α _) := by
  refine (Indifferent.weight _).bind fun _ => (Indifferent.matmul _ _).bind fun _ => ?_
  refine (Indifferent.weight _).bind fun _ => (Indifferent.add _ _).bind fun _ => ?_
  refine (Indifferent.weight _).bind fun _ => (Indifferent.weight _).bind fun _ => ?_
  refine (Indifferent.leaf _ _).bind fun _ => (Indifferent.leaf _ _).bind fun _ => ?_
  refine (unroll_indifferent c size _ _ _ _ _).bind fun p => ?_
  dsimp only
  split
  · exact (Indifferent.leaf _ _).bind fun _ => .pure _
  · exact (Indifferent.stack _ _).bind fun _ => .pure _

end Cell

namespace RecurrentLayer

theorem runCells_indifferent (r : RecurrentLayer) (batch time : Nat) (ws : List Cell.Weights)
    (x : Tensor) : Indifferent (r.runCells batch time ws x : Run α _) := by
  induction ws generalizing x with
  | nil => exact .pure _
  | cons w ws ih =>
    exact (Cell.run_indifferent r.cell _ _ _ w x).bind fun p => (ih p.1).bind fun _ => .pure _

theorem forward_indifferent (r : RecurrentLayer) (slots : List Nat) (x : Tensor) :
    Indifferent (r.forward slots x : Run α _) := by
  refine (Indifferent.value x).bind fun a => ?_
  split
  · refine (runCells_indifferent r _ _ _ x).bind fun p => ?_
    dsimp only
    split
    · exact .pure _
    · refine (Indifferent.stack _ _).bind fun _ => ?_
      split
      · exact .pure _
      · exact (Indifferent.stack _ _).bind fun _ => .pure _
  · exact .throw _

end RecurrentLayer

end NeuralNet
