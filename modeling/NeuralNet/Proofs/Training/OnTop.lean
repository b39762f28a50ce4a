import NeuralNet.Proofs.Block.OnTop
import NeuralNet.Training.Trainer

/-!
# Training on top of a tape

A trainer that is ready has resolved parameters and an optimizer. What it learns from a batch then
does not depend on what is on the tape, nor on the mode it was left in, `trainBatch_bare`.
-/

namespace NeuralNet

variable {α β γ δ ε : Type}

namespace Trainer

/-- A computation of a trainer from the one it starts from. -/
theorem bind_apply (x : Training α β) (f : β → Training α γ) (t : Trainer α) :
    (x >>= f) t =
      match x t with
      | (.ok b, t') => f b t'
      | (.error e, t') => (.error e, t') := by
  simp only [bind, ExceptT.bind, ExceptT.mk, StateT.bind]
  rcases x t with ⟨_ | _, _⟩ <;> rfl

theorem bind_of_ok {x : Training α β} {f : β → Training α γ} {t t' : Trainer α} {b : β}
    (h : x t = (.ok b, t')) : (x >>= f) t = f b t' := by
  rw [bind_apply, h]

theorem run_apply (x : Run α β) (t : Trainer α) :
    run x t = ((x t.workspace).1, { t with workspace := (x t.workspace).2 }) := rfl

theorem releasing_apply (x : Training α β) (t : Trainer α) :
    releasing x t = ((x t).1, { (x t).2 with
      workspace := { (x t).2.workspace with
        nodes := (x t).2.workspace.nodes.take t.workspace.nodes.size } }) := rfl

theorem releasing_congr {x y : Training α β} {t : Trainer α} (h : x t = y t) :
    releasing x t = releasing y t := by
  rw [releasing_apply, releasing_apply, h]

/-- The parameters are resolved, and there is an optimizer. -/
def IsReady (t : Trainer α) : Prop :=
  t.optimizer.isSome = true ∧ t.block.isResolved t.workspace = true

instance (t : Trainer α) : Decidable t.IsReady := inferInstanceAs (Decidable (_ ∧ _))

/-- The trainer in training mode and with nothing on the tape. -/
def bare (t : Trainer α) : Trainer α :=
  { t with workspace := { t.workspace with nodes := #[], training := true } }

/-- The trainer with these nodes below its own. -/
def onTop (P : Array (Node α)) (t : Trainer α) : Trainer α :=
  { t with workspace := t.workspace.onTop P }

variable {t u : Trainer α} {P : Array (Node α)}

theorem isReady_bare : t.bare.IsReady ↔ t.IsReady := Iff.rfl

theorem isReady_congr (h : t.bare = u.bare) : t.IsReady ↔ u.IsReady := by
  rw [← isReady_bare, h, isReady_bare]

/-! ## Training on top of a tape -/

/-- As for the computations in a workspace. -/
def OnTop (P : Array (Node α)) (f : β → γ) (x : Training α β) (y : Training α γ) : Prop :=
  ∀ t, y (t.onTop P) = ((x t).1.map f, (x t).2.onTop P)

theorem OnTop.pure {f : β → γ} {b : β} {c : γ} (h : c = f b) :
    OnTop P f (Pure.pure b : Training α β) (Pure.pure c) := by
  subst h
  exact fun _ => rfl

theorem OnTop.bind {x : Training α β} {y : Training α γ} {k : β → Training α δ}
    {l : γ → Training α ε} {f : β → γ} {g : δ → ε} (hx : OnTop P f x y)
    (hk : ∀ b, OnTop P g (k b) (l (f b))) : OnTop P g (x >>= k) (y >>= l) := by
  intro t
  rw [bind_apply, bind_apply, hx]
  match x t with
  | (.ok b, t') => exact hk b t'
  | (.error e, t') => rfl

theorem onTop_get {k : Trainer α → Training α β} {l : Trainer α → Training α γ} {f : β → γ}
    (hk : l (t.onTop P) (t.onTop P) = ((k t t).1.map f, (k t t).2.onTop P)) :
    (get >>= l) (t.onTop P) = (((get >>= k) t).1.map f, ((get >>= k) t).2.onTop P) := hk

theorem OnTop.run {f : β → γ} {x : Run α β} {y : Run α γ} (h : Run.OnTop P f x y) :
    OnTop P f (run x) (run y) := by
  intro t
  have hworkspace : (t.onTop P).workspace = t.workspace.onTop P := rfl
  rw [run_apply, run_apply, hworkspace, h]
  rfl

theorem OnTop.prediction (outputs : List Tensor) :
    OnTop P (·.raise P.size) (prediction outputs : Training α Tensor)
      (prediction (outputs.map (·.raise P.size))) := by
  cases outputs with
  | nil => exact fun _ => rfl
  | cons first rest => exact .pure rfl

variable [Scalar α]

theorem advanceAll_onTop (settings : OptimizerSettings) (steps : Nat) (tracked : List (Tracked α))
    (w : Workspace α) :
    Optimizer.advanceAll settings steps tracked (w.onTop P) =
      ((Optimizer.advanceAll settings steps tracked w).1,
        (Optimizer.advanceAll settings steps tracked w).2.1,
        (Optimizer.advanceAll settings steps tracked w).2.2.onTop P) := by
  induction tracked generalizing w with
  | nil => rfl
  | cons t tracked ih =>
    unfold Optimizer.advanceAll
    rw [w.slot_onTop]
    cases Optimizer.advance settings steps t (w.slot t.slot) with
    | error e => rfl
    | ok p =>
      dsimp only
      have hstored : (w.onTop P).modifySlot p.1.slot (fun _ => p.2) =
          (w.modifySlot p.1.slot fun _ => p.2).onTop P := rfl
      rw [hstored, ih]

theorem OnTop.step : OnTop P id (step : Training α Unit) step := by
  intro t
  have hoptimizer : (t.onTop P).optimizer = t.optimizer := rfl
  have hworkspace : (t.onTop P).workspace = t.workspace.onTop P := rfl
  unfold Trainer.step
  rw [hoptimizer, hworkspace]
  cases t.optimizer with
  | none => rfl
  | some o =>
    dsimp only [Optimizer.step]
    rw [advanceAll_onTop]
    cases (Optimizer.advanceAll o.settings (o.steps + 1) o.tracked t.workspace).1 <;> rfl

omit [Scalar α] in
theorem optimizer_dropGradients_onTop (o : Optimizer α) :
    Run.OnTop P id (o.dropGradients : Run α Unit) o.dropGradients := by
  have htracked : o.tracked = o.tracked.map id := (List.map_id _).symm
  have h := Run.OnTop.forM (P := P) (f := id) (l := fun t : Tracked α =>
    (do Run.dropGradient (← Run.weight t.slot) : Run α Unit)) o.tracked fun t =>
      (Run.OnTop.weight t.slot).bind fun _ => .dropGradient _
  rw [← htracked] at h
  exact h

omit [Scalar α] in
theorem dropGradients_apply (t : Trainer α) :
    dropGradients t =
      match t.optimizer with
      | none => (.error (.uninitialized .optimizer), t)
      | some o => Trainer.run o.dropGradients t := by
  obtain ⟨block, settings, optimizer, w⟩ := t
  cases optimizer <;> rfl

omit [Scalar α] in
theorem OnTop.dropGradients : OnTop P id (dropGradients : Training α Unit) dropGradients := by
  intro t
  have hoptimizer : (t.onTop P).optimizer = t.optimizer := rfl
  rw [dropGradients_apply, dropGradients_apply, hoptimizer]
  cases t.optimizer with
  | none => rfl
  | some o => exact OnTop.run (optimizer_dropGradients_onTop o) t

omit [Scalar α] in
theorem OnTop.setTraining (training : Bool) :
    OnTop P id (setTraining training : Training α Unit) (setTraining training) := fun _ => rfl

/-- What a trainer that is ready does with a batch on the tape. -/
def trainOn (x y : Tensor) : Training α α := do
  let t ← get
  setTraining true
  dropGradients
  let outputs ← run (t.block.forward [x])
  let loss ← run (t.settings.loss.apply (← prediction outputs) y)
  run (Run.backward loss)
  step
  return (← run (Run.value loss)).entry 0

theorem OnTop.trainOn (x y : Tensor) :
    OnTop P id (trainOn x y : Training α α) (trainOn (x.raise P.size) (y.raise P.size)) := by
  refine fun t => onTop_get ?_
  refine OnTop.bind (.setTraining true) (fun _ => ?_) t
  refine OnTop.bind .dropGradients fun _ => ?_
  refine (OnTop.run (t.block.forward_onTop [x])).bind fun outputs => ?_
  refine (OnTop.prediction outputs).bind fun predicted => ?_
  refine (OnTop.run (.loss t.settings.loss predicted y)).bind fun loss => ?_
  refine (OnTop.run (.backward loss)).bind fun _ => OnTop.step.bind fun _ => ?_
  exact (OnTop.run (.value loss)).bind fun _ => .pure rfl

theorem ensurePrepared_of_isReady (h : t.IsReady) (inputs : List Extents) :
    ensurePrepared inputs t = (.ok (), t) := by
  have hready : (t.optimizer.isSome && t.block.isResolved t.workspace) = true :=
    Bool.and_eq_true_iff.mpr h
  unfold ensurePrepared
  change (if t.optimizer.isSome && t.block.isResolved t.workspace then _ else _ : Training α Unit) t = _
  rw [if_pos hready]
  rfl

/-- The batch is put on the tape and trained on. -/
def trainNext (b : Batch α) : Training α α := do
  trainOn (← run (Run.leaf b.data false)) (← run (Run.leaf b.labels false))

theorem trainBatch_of_isReady (h : t.IsReady) (b : Batch α) :
    trainBatch b t = releasing (trainNext b) t := by
  let t₁ : Trainer α := { t with workspace := (Run.leaf b.data false t.workspace).2 }
  let t₂ : Trainer α := { t with workspace := (Run.leaf b.labels false t₁.workspace).2 }
  have hready : t₂.IsReady := h
  have hdata : run (Run.leaf b.data false) t = (.ok (.node t.workspace.nodes.size), t₁) := rfl
  have hlabels : run (Run.leaf b.labels false) t₁ = (.ok (.node t₁.workspace.nodes.size), t₂) := rfl
  refine releasing_congr ?_
  rw [trainNext, bind_of_ok hdata, bind_of_ok hlabels,
    bind_of_ok (ensurePrepared_of_isReady hready [b.data.extents]), bind_of_ok hdata,
    bind_of_ok hlabels]
  rfl

theorem OnTop.trainNext (b : Batch α) :
    OnTop P id (trainNext b : Training α α) (trainNext b) :=
  (OnTop.run (.leaf b.data false)).bind fun _ => (OnTop.run (.leaf b.labels false)).bind fun _ =>
    .trainOn _ _

/-- The mode that it was left in makes no difference. -/
theorem trainNext_setTraining (b : Batch α) (training : Bool) (t : Trainer α) :
    trainNext b { t with workspace := { t.workspace with training } } = trainNext b t := by
  rfl

/-- A trainer that is ready learns from a batch what it would learn in training mode and with nothing
on the tape. -/
theorem trainBatch_bare (h : t.IsReady) (b : Batch α) :
    trainBatch b t =
      ((trainBatch b t.bare).1, (trainBatch b t.bare).2.onTop t.workspace.nodes) := by
  let P := t.workspace.nodes
  have htape : t.bare.onTop P = { t with workspace := { t.workspace with training := true } } := by
    simp [onTop, bare, Workspace.onTop, P]
  have hrun : trainNext b t =
      ((trainNext b t.bare).1, (trainNext b t.bare).2.onTop t.workspace.nodes) := by
    rw [← trainNext_setTraining b true t, ← htape, OnTop.trainNext b t.bare]
    cases (trainNext b t.bare).1 <;> rfl
  have hready : t.bare.IsReady := h
  rw [trainBatch_of_isReady h, trainBatch_of_isReady hready, releasing_apply, releasing_apply, hrun]
  have hbare : t.bare.workspace.nodes.size = 0 := rfl
  simp [onTop, Workspace.onTop, hbare]

end Trainer

end NeuralNet
