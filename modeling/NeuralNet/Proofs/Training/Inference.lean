import NeuralNet.Proofs.Session.Lifecycle
import NeuralNet.Proofs.Training.OnTop

/-!
# Inference beside training

Going forward in evaluation changes nothing of a trainer that is ready but its tape and its mode, and
on these its training does not depend. So it trains as if it had not been asked for any inference.

* `judges_forward`, `evaluateBatch_state`: what evaluation leaves;
* `calls_alike`: calls with and without those that infer;
* `runEpochs_cases`: epochs with and without validation;
* `inference_leaves_training`: both together.
-/

namespace NeuralNet

open Run (Keeps)

variable {α β γ : Type}

/-- In evaluation nothing changes but the tape, which grows. -/
def Frame.reading : Frame α where
  Rel w w' := w.training = false → ∃ more, w' = { w with nodes := w.nodes ++ more }
  refl w _ := ⟨#[], by rw [Array.append_empty]⟩
  trans {w₁ w₂ w₃} h k hw := by
    obtain ⟨first, rfl⟩ := h hw
    obtain ⟨second, rfl⟩ := k hw
    exact ⟨first ++ second, by rw [Array.append_assoc]⟩
  push w node _ := ⟨#[node], by rw [Array.push_eq_append]⟩
  random w source htraining hw := by
    rw [hw] at htraining
    cases htraining

namespace Trainer

variable {t t' u : Trainer α}

/-! ## Staying ready -/

variable [Scalar α]

theorem IsReady.of_lives (h : t.IsReady) (hblock : t'.block = t.block)
    (hoptimizer : t'.optimizer.isSome = true)
    (hslots : (Frame.ofLaw Slot.life_law).Rel t.workspace t'.workspace) : t'.IsReady := by
  refine ⟨hoptimizer, ?_⟩
  rw [hblock]
  exact List.all_eq_true.mpr fun i hi => (hslots i).isResolved (List.all_eq_true.mp h.2 i hi)

/-- Whatever comes of the computation, a trainer that is ready stays ready. -/
def Settled (x : Training α β) : Prop := ∀ t, t.IsReady → (x t).2.IsReady

omit [Scalar α] in
theorem Settled.bind {x : Training α β} {f : β → Training α γ} (hx : Settled x)
    (hf : ∀ b, Settled (f b)) : Settled (x >>= f) := by
  intro t ht
  rw [bind_apply]
  match hxt : x t with
  | (.ok b, t') =>
    have ht' := hx t ht
    rw [hxt] at ht'
    exact hf b t' ht'
  | (.error e, t') =>
    have ht' := hx t ht
    rw [hxt] at ht'
    exact ht'

omit [Scalar α] in
theorem Settled.pure (b : β) : Settled (Pure.pure b : Training α β) := fun _ ht => ht

theorem Settled.run {x : Run α β} (hx : Keeps (Frame.ofLaw Slot.life_law) x) : Settled (run x) :=
  fun t ht => ht.of_lives rfl ht.1 (hx t.workspace)

omit [Scalar α] in
theorem Settled.prediction (outputs : List Tensor) :
    Settled (prediction outputs : Training α Tensor) := by
  cases outputs with
  | nil => exact fun _ ht => ht
  | cons first rest => exact .pure first

theorem Settled.step : Settled (step : Training α Unit) := by
  intro t ht
  unfold Trainer.step
  obtain ⟨o, ho⟩ := Option.isSome_iff_exists.mp ht.1
  rw [ho]
  exact ht.of_lives rfl rfl (Slot.life_law.rel_advanceAll o.settings (o.steps + 1) o.tracked _)

theorem Settled.dropGradients : Settled (dropGradients : Training α Unit) := by
  intro t ht
  rw [dropGradients_apply]
  cases t.optimizer with
  | none => exact ht
  | some o => exact Settled.run (Slot.life_law.keeps_dropGradients o) t ht

theorem Settled.trainOn (x y : Tensor) : Settled (trainOn x y : Training α α) := by
  have hget : Settled (get : Training α (Trainer α)) := fun _ ht => ht
  have hmode : Settled (setTraining true : Training α Unit) := fun _ ht => ht
  refine hget.bind fun t => hmode.bind fun _ => Settled.dropGradients.bind fun _ => ?_
  refine Settled.bind (.run ?_) fun outputs => ?_
  · exact Slot.life_law.keeps_forward Slot.lives_setData t.block [x]
  refine (Settled.prediction outputs).bind fun predicted => ?_
  refine Settled.bind (.run (.loss t.settings.loss predicted y)) fun loss => ?_
  refine Settled.bind (.run ?_) fun _ => ?_
  · exact Keeps.backward Slot.life_law.keeps_addGradient loss
  exact Settled.step.bind fun _ => Settled.bind (.run (.value loss)) fun _ => .pure _

theorem isReady_trainBatch (h : t.IsReady) (b : Batch α) : (trainBatch b t).2.IsReady := by
  rw [trainBatch_of_isReady h, releasing_apply]
  have hnext : Settled (trainNext b : Training α α) :=
    Settled.bind (.run (.leaf b.data false)) fun x =>
      Settled.bind (.run (.leaf b.labels false)) fun y => .trainOn x y
  exact hnext t h

/-! ## Evaluation -/

/-- Only the tape has grown, and the mode is that of evaluation. -/
def Judges (t t' : Trainer α) : Prop :=
  ∃ more, t' = { t with
    workspace := { t.workspace with nodes := t.workspace.nodes ++ more, training := false } }

omit [Scalar α] in
theorem Judges.trans (h : t.Judges t') (h' : t'.Judges u) : t.Judges u := by
  obtain ⟨first, rfl⟩ := h
  obtain ⟨second, rfl⟩ := h'
  exact ⟨first ++ second, by simp [Array.append_assoc]⟩

omit [Scalar α] in
theorem Judges.bare_eq (h : t.Judges t') : t'.bare = t.bare := by
  obtain ⟨more, rfl⟩ := h
  rfl

/-- In evaluation the computation does no more than that. -/
def Reads (x : Training α β) : Prop :=
  ∀ t : Trainer α, t.workspace.training = false → t.Judges (x t).2

omit [Scalar α] in
theorem Judges.refl (h : t.workspace.training = false) : t.Judges t := by
  refine ⟨#[], ?_⟩
  rw [Array.append_empty, ← h]

omit [Scalar α] in
theorem Reads.pure (b : β) : Reads (Pure.pure b : Training α β) := fun _ => .refl

omit [Scalar α] in
theorem Reads.bind {x : Training α β} {f : β → Training α γ} (hx : Reads x)
    (hf : ∀ b, Reads (f b)) : Reads (x >>= f) := by
  intro t ht
  rw [bind_apply]
  match hxt : x t with
  | (.ok b, t') =>
    have hfirst := hx t ht
    rw [hxt] at hfirst
    have ht' : t'.workspace.training = false := by
      obtain ⟨more, rfl⟩ := hfirst
      rfl
    exact hfirst.trans (hf b t' ht')
  | (.error e, t') =>
    have hfirst := hx t ht
    rw [hxt] at hfirst
    exact hfirst

omit [Scalar α] in
theorem Reads.run {x : Run α β} (hx : Keeps Frame.reading x) : Reads (run x) := by
  intro t ht
  obtain ⟨more, hmore⟩ := hx t.workspace ht
  refine ⟨more, ?_⟩
  rw [run_apply, hmore, ← ht]

omit [Scalar α] in
theorem Reads.prediction (outputs : List Tensor) :
    Reads (prediction outputs : Training α Tensor) := by
  cases outputs with
  | nil => exact fun _ => .refl
  | cons first rest => exact .pure first

theorem keeps_reading_forward (b : Block) (ts : List Tensor) :
    Keeps Frame.reading (b.forward ts : Run α (List Tensor)) := by
  refine b.forward_keeps ts fun i _ w a htraining _ hw => ?_
  rw [hw] at htraining
  cases htraining

theorem forward_of_isReady (h : t.IsReady) (inputs : List Tensor) :
    forward inputs t = run (Run.paused (t.block.forward inputs))
      { t with workspace := { t.workspace with training := false } } := by
  unfold forward
  change (ensurePrepared (inputs.map fun x => (t.workspace.value x).extents) >>= _) t = _
  rw [bind_of_ok (ensurePrepared_of_isReady h _)]
  rfl

theorem judges_forward (h : t.IsReady) (inputs : List Tensor) : t.Judges (forward inputs t).2 := by
  let w : Workspace α := { t.workspace with training := false, pauses := t.workspace.pauses + 1 }
  obtain ⟨more, hmore⟩ := keeps_reading_forward t.block inputs w rfl
  have hpaused : (Run.paused (t.block.forward inputs)
      { t.workspace with training := false }).2 =
      { (t.block.forward inputs w).2 with pauses := (t.block.forward inputs w).2.pauses - 1 } := rfl
  refine ⟨more, ?_⟩
  rw [forward_of_isReady h, run_apply, hpaused, hmore]
  rfl

/-- What outputs of the block say about a label on the tape. -/
def judge (outputs : List Tensor) (y : Tensor) : Training α (α × Option α) := do
  let predicted ← prediction outputs
  let settings := (← get).settings
  let loss ← run (settings.loss.apply predicted y)
  let value := (← run (Run.value loss)).entry 0
  match settings.loss with
  | .softmaxCrossEntropy => return (value, some (← run (Loss.accuracy predicted y)))
  | .l2 => return (value, none)

theorem reads_judge (outputs : List Tensor) (y : Tensor) :
    Reads (judge outputs y : Training α (α × Option α)) := by
  have hget : Reads (get : Training α (Trainer α)) := fun _ => .refl
  refine (Reads.prediction outputs).bind fun predicted => hget.bind fun t => ?_
  refine Reads.bind (.run (.loss t.settings.loss predicted y)) fun loss => ?_
  refine Reads.bind (.run (.value loss)) fun value => ?_
  cases t.settings.loss with
  | softmaxCrossEntropy =>
    refine Reads.bind (.run ?_) fun _ => .pure _
    exact (Keeps.value predicted).bind fun _ => (Keeps.value y).bind fun _ => .check _
  | l2 => exact .pure _

/-- The batch is put on the tape and goes forward. -/
def judgeNext (b : Batch α) : Training α (α × Option α) := do
  let x ← run (Run.leaf b.data false)
  let y ← run (Run.leaf b.labels false)
  judge (← forward [x]) y

theorem evaluateBatch_eq (b : Batch α) : evaluateBatch b = releasing (judgeNext b) := rfl

omit [Scalar α] in
theorem bind_state {x : Training α β} {f : β → Training α γ} {R : Trainer α → Prop}
    (herror : ∀ e, (x t).1 = .error e → R (x t).2)
    (hok : ∀ b, (x t).1 = .ok b → R (f b (x t).2).2) : R ((x >>= f) t).2 := by
  rw [bind_apply]
  match hx : x t with
  | (.ok b, t') =>
    rw [hx] at hok
    exact hok b rfl
  | (.error e, t') =>
    rw [hx] at herror
    exact herror e rfl

/-- The trainer with a batch on the tape. -/
def holding (b : Batch α) (t : Trainer α) : Trainer α :=
  { t with workspace :=
    (Run.leaf b.labels false (Run.leaf b.data false t.workspace).2).2 }

theorem judgeNext_apply (b : Batch α) (t : Trainer α) :
    judgeNext b t = (do
      let outputs ← forward [.node t.workspace.nodes.size]
      judge outputs (.node (t.workspace.nodes.size + 1)) : Training α _) (t.holding b) := by
  have hsize : (t.workspace.nodes.push ⟨b.data, none, false, none⟩).size =
      t.workspace.nodes.size + 1 := Array.size_push _
  rw [← hsize]
  rfl

/-- The mode that it was left in makes no difference. -/
theorem evaluateBatch_setTraining (h : t.IsReady) (b : Batch α) (training : Bool) :
    evaluateBatch b { t with workspace := { t.workspace with training } } = evaluateBatch b t := by
  let t' : Trainer α := { t with workspace := { t.workspace with training } }
  have hready : (t.holding b).IsReady := h
  have hready' : (t'.holding b).IsReady := h
  have hnext : judgeNext b t' = judgeNext b t := by
    rw [judgeNext_apply, judgeNext_apply, bind_apply, bind_apply, forward_of_isReady hready,
      forward_of_isReady hready']
    rfl
  rw [evaluateBatch_eq, releasing_apply, releasing_apply, hnext]

/-- An evaluation leaves nothing behind but its mode. -/
theorem evaluateBatch_state (h : t.IsReady) (b : Batch α) :
    (evaluateBatch b t).2 = { t with workspace := { t.workspace with training := false } } := by
  have hready : (t.holding b).IsReady := h
  have hforward := judges_forward hready [.node t.workspace.nodes.size]
  have hnext : (t.holding b).Judges (judgeNext b t).2 := by
    rw [judgeNext_apply]
    refine bind_state (R := (t.holding b).Judges) (fun _ _ => hforward) fun outputs _ => ?_
    refine hforward.trans (reads_judge outputs _ _ ?_)
    obtain ⟨more, hmore⟩ := hforward
    rw [hmore]
  obtain ⟨more, hmore⟩ := hnext
  rw [evaluateBatch_eq, releasing_apply, hmore]
  have hnodes : (t.holding b).workspace.nodes =
      (t.workspace.nodes.push ⟨b.data, none, false, none⟩).push ⟨b.labels, none, false, none⟩ := rfl
  have htake : ((t.holding b).workspace.nodes ++ more).take t.workspace.nodes.size =
      t.workspace.nodes := by
    rw [hnodes, ← Array.append_singleton, ← Array.append_singleton, Array.append_assoc,
      Array.append_assoc]
    simp
  rw [htake]
  rfl

/-! ## Two runs -/

/-- The trainers differ in their modes at most. -/
def Twins (t u : Trainer α) : Prop := t.bare = u.bare ∧ t.workspace.nodes = u.workspace.nodes

omit [Scalar α] in
theorem Twins.refl (t : Trainer α) : t.Twins t := ⟨rfl, rfl⟩

omit [Scalar α] in
theorem Twins.trans (h : t.Twins t') (h' : t'.Twins u) : t.Twins u :=
  ⟨h.1.trans h'.1, h.2.trans h'.2⟩

omit [Scalar α] in
theorem Twins.symm (h : t.Twins u) : u.Twins t := ⟨h.1.symm, h.2.symm⟩

omit [Scalar α] in
theorem Twins.eq_setTraining (h : t.Twins u) :
    u = { t with workspace := { t.workspace with training := u.workspace.training } } := by
  obtain ⟨hbare, hnodes⟩ := h
  obtain ⟨block, settings, optimizer, slots, nodes, pauses, training, type, random⟩ := t
  obtain ⟨block', settings', optimizer', slots', nodes', pauses', training', type', random'⟩ := u
  cases hnodes
  cases hbare
  rfl

theorem trainBatch_eq_of_twins (h : t.IsReady) (htwins : t.Twins u) (b : Batch α) :
    trainBatch b t = trainBatch b u := by
  have hu : u.IsReady := (isReady_congr htwins.1).mp h
  rw [trainBatch_bare h, trainBatch_bare hu, htwins.1, htwins.2]

theorem evaluateBatch_eq_of_twins (h : t.IsReady) (htwins : t.Twins u) (b : Batch α) :
    evaluateBatch b t = evaluateBatch b u := by
  rw [htwins.eq_setTraining]
  exact (evaluateBatch_setTraining h b _).symm

/-- Two runs from such trainers have the same outcome and leave such trainers, which are ready if
they were. -/
def Alike (x : Training α β) : Prop :=
  ∀ t u : Trainer α, t.IsReady → t.Twins u →
    (x t).1 = (x u).1 ∧ (x t).2.Twins (x u).2 ∧ (x t).2.IsReady

omit [Scalar α] in
theorem Alike.pure (b : β) : Alike (Pure.pure b : Training α β) :=
  fun _ _ ht htwins => ⟨rfl, htwins, ht⟩

omit [Scalar α] in
theorem Alike.bind {x : Training α β} {f : β → Training α γ} (hx : Alike x)
    (hf : ∀ b, Alike (f b)) : Alike (x >>= f) := by
  intro t u ht htwins
  obtain ⟨hsame, htwins', ht'⟩ := hx t u ht htwins
  rw [bind_apply, bind_apply]
  match hxt : x t, hxu : x u with
  | (.ok b, t'), (r, u') =>
    rw [hxt, hxu] at hsame htwins'
    rw [hxt] at ht'
    cases hsame
    exact hf b t' u' ht' htwins'
  | (.error e, t'), (r, u') =>
    rw [hxt, hxu] at hsame htwins'
    rw [hxt] at ht'
    cases hsame
    exact ⟨rfl, htwins', ht'⟩

omit [Scalar α] in
theorem Alike.mapM {f : γ → Training α β} (cs : List γ) (hf : ∀ c, Alike (f c)) :
    Alike (cs.mapM f) := by
  induction cs with
  | nil => exact .pure []
  | cons c cs ih =>
    rw [List.mapM_cons]
    exact (hf c).bind fun b => ih.bind fun bs => .pure (b :: bs)

theorem Alike.trainBatch (b : Batch α) : Alike (trainBatch b) := by
  intro t u ht htwins
  rw [← trainBatch_eq_of_twins ht htwins b]
  exact ⟨rfl, .refl _, isReady_trainBatch ht b⟩

theorem Alike.evaluateBatch (b : Batch α) : Alike (evaluateBatch b) := by
  intro t u ht htwins
  rw [← evaluateBatch_eq_of_twins ht htwins b]
  refine ⟨rfl, .refl _, ?_⟩
  rw [evaluateBatch_state ht]
  exact ht

theorem Alike.evaluate (d : Dataset α) : Alike (evaluate d) :=
  (Alike.mapM _ fun b => (Alike.evaluateBatch b).bind fun _ => .pure _).bind fun _ => .pure _

/-- The computation leaves nothing behind but its mode. -/
def Rests (x : Training α β) : Prop := ∀ t : Trainer α, t.IsReady → t.Twins (x t).2

omit [Scalar α] in
theorem Rests.bind {x : Training α β} {f : β → Training α γ} (hx : Rests x)
    (hf : ∀ b, Rests (f b)) : Rests (x >>= f) := by
  intro t ht
  have hfirst := hx t ht
  have ht' : (x t).2.IsReady := (isReady_congr hfirst.1).mp ht
  exact bind_state (R := t.Twins) (fun _ _ => hfirst) fun b _ => hfirst.trans (hf b _ ht')

omit [Scalar α] in
theorem Rests.pure (b : β) : Rests (Pure.pure b : Training α β) := fun t _ => .refl t

omit [Scalar α] in
theorem Rests.mapM {f : γ → Training α β} (cs : List γ) (hf : ∀ c, Rests (f c)) :
    Rests (cs.mapM f) := by
  induction cs with
  | nil => exact .pure []
  | cons c cs ih =>
    rw [List.mapM_cons]
    exact (hf c).bind fun b => ih.bind fun bs => .pure (b :: bs)

theorem Rests.evaluateBatch (b : Batch α) : Rests (evaluateBatch b) := by
  intro t ht
  rw [evaluateBatch_state ht]
  exact ⟨rfl, rfl⟩

theorem Rests.evaluate (d : Dataset α) : Rests (evaluate d) :=
  (Rests.mapM _ fun b => (Rests.evaluateBatch b).bind fun _ => .pure _).bind fun _ => .pure _

/-! ## Calls -/

/-- What a trainer is asked for. Inputs of inference are put on the tape before. -/
inductive Call (α : Type) where
  | leaf (a : DenseArray α) (grad : Bool)
  | trainBatch (b : Batch α)
  | evaluateBatch (b : Batch α)
  | forward (inputs : List Tensor)

namespace Call

def infers : Call α → Bool
  | evaluateBatch _ | forward _ => true
  | leaf _ _ | trainBatch _ => false

/-- The trainer after a call, whatever came of it. -/
def run : Call α → Trainer α → Trainer α
  | leaf a grad, t => (Trainer.run (Run.leaf a grad) t).2
  | trainBatch b, t => (Trainer.trainBatch b t).2
  | evaluateBatch b, t => (Trainer.evaluateBatch b t).2
  | forward inputs, t => (Trainer.forward inputs t).2

/-- What is answered to a call that trains. -/
def loss? : Call α → Trainer α → Option (Except Error α)
  | trainBatch b, t => some (Trainer.trainBatch b t).1
  | _, _ => none

end Call

/-- The trainer after all calls. -/
def runCalls (calls : List (Call α)) (t : Trainer α) : Trainer α :=
  calls.foldl (fun t c => c.run t) t

/-- The answers to all calls that train. -/
def losses : List (Call α) → Trainer α → List (Except Error α)
  | [], _ => []
  | c :: rest, t => (c.loss? t).toList ++ losses rest (c.run t)

/-- The same parameters, with values and gradients, the same optimizer and the same random source. -/
structure Agrees (t u : Trainer α) : Prop where
  slots : t.workspace.slots = u.workspace.slots
  optimizer : t.optimizer = u.optimizer
  random : t.workspace.random = u.workspace.random

omit [Scalar α] in
theorem agrees_of_bare (h : t.bare = u.bare) : t.Agrees u :=
  ⟨congrArg (·.workspace.slots) h, congrArg (·.optimizer) h, congrArg (·.workspace.random) h⟩

theorem bare_run (h : t.IsReady) {c : Call α} (hc : c.infers = true) : (c.run t).bare = t.bare := by
  cases c with
  | leaf a grad => cases hc
  | trainBatch b => cases hc
  | evaluateBatch b =>
    rw [Call.run, evaluateBatch_state h]
    rfl
  | forward inputs => exact (judges_forward h inputs).bare_eq

/-- A call that does not infer is answered alike, and leaves the same. -/
theorem run_alike (h : t.IsReady) (hbare : t.bare = u.bare) {c : Call α} (hc : c.infers = false) :
    c.loss? t = c.loss? u ∧ (c.run t).bare = (c.run u).bare ∧ (c.run t).IsReady := by
  have hu : u.IsReady := (isReady_congr hbare).mp h
  cases c with
  | evaluateBatch b => cases hc
  | forward inputs => cases hc
  | leaf a grad => exact ⟨rfl, hbare, h⟩
  | trainBatch b =>
    have hready := isReady_trainBatch h b
    simp only [Call.loss?, Call.run] at hready ⊢
    rw [trainBatch_bare h] at hready ⊢
    rw [trainBatch_bare hu, ← hbare]
    exact ⟨rfl, rfl, hready⟩

/-- Calls to infer may be left out. -/
theorem calls_alike (calls : List (Call α)) (h : t.IsReady) (hbare : t.bare = u.bare) :
    losses calls t = losses (calls.filter fun c => !c.infers) u ∧
      (runCalls calls t).bare = (runCalls (calls.filter fun c => !c.infers) u).bare := by
  induction calls generalizing t u with
  | nil => exact ⟨rfl, hbare⟩
  | cons c calls ih =>
    cases hc : c.infers with
    | true =>
      have hsame := bare_run h hc
      have hready := (isReady_congr hsame).mpr h
      have hloss : c.loss? t = none := by
        cases c with
        | trainBatch b => cases hc
        | _ => rfl
      rw [List.filter_cons_of_neg (by simp [hc]), losses, hloss]
      exact ih hready (hsame.trans hbare)
    | false =>
      obtain ⟨hloss, hnext, hready⟩ := run_alike h hbare hc
      rw [List.filter_cons_of_pos (by simp [hc]), losses, losses, hloss]
      obtain ⟨hlosses, hlast⟩ := ih hready hnext
      exact ⟨congrArg _ hlosses, hlast⟩

/-! ## Whole trainings -/

/-- What was measured on the training data. -/
def withoutValidation (e : Epoch) : Epoch :=
  { e with validationLoss := none, validationAccuracy := none }

/-- The accuracy on the training data, where classes are told apart. -/
def trainingAccuracy (train : Dataset Single) : Loss → Training Single (Option Single)
  | .softmaxCrossEntropy => (·.2) <$> evaluate train
  | .l2 => pure none

/-- An epoch but for its validation. -/
def trainEpoch (train : Dataset Single) (epoch : Nat) : Training Single (Single × Option Single) := do
  let losses ← (train.batches epoch).mapM fun b => do return (← trainBatch b, b.size)
  let accuracy ← trainingAccuracy train (← get).settings.loss
  return ((Scalar.weightedMean losses).getD .zero, accuracy)

theorem runEpoch_none (train : Dataset Single) (epoch : Nat) :
    runEpoch train none epoch =
      trainEpoch train epoch >>= fun p => pure ⟨epoch, p.1, p.2, none, none⟩ := by
  simp only [runEpoch, trainEpoch, bind_assoc, pure_bind]
  refine bind_congr fun losses => bind_congr fun t => ?_
  cases t.settings.loss <;> simp only [trainingAccuracy, pure_bind]

theorem runEpoch_some (train d : Dataset Single) (epoch : Nat) :
    runEpoch train (some d) epoch = trainEpoch train epoch >>= fun p =>
      evaluate d >>= fun q => pure ⟨epoch, p.1, p.2, q.1, q.2⟩ := by
  simp only [runEpoch, trainEpoch, bind_assoc, pure_bind]
  refine bind_congr fun losses => bind_congr fun t => ?_
  cases t.settings.loss <;> simp only [trainingAccuracy, pure_bind]

theorem Alike.trainingAccuracy (train : Dataset Single) (l : Loss) :
    Alike (trainingAccuracy train l) := by
  cases l with
  | l2 => exact .pure none
  | softmaxCrossEntropy =>
    unfold Trainer.trainingAccuracy
    rw [map_eq_pure_bind]
    exact (Alike.evaluate train).bind fun _ => .pure _

omit [Scalar α] in
/-- The settings are the same in both runs. -/
theorem Alike.settings {f : TrainingSettings → Training α β} (hf : ∀ s, Alike (f s)) :
    Alike (get >>= fun t : Trainer α => f t.settings) := by
  intro t u ht htwins
  have hsettings : t.settings = u.settings := congrArg (·.settings) htwins.1
  change (f t.settings t).1 = (f u.settings u).1 ∧
    (f t.settings t).2.Twins (f u.settings u).2 ∧ (f t.settings t).2.IsReady
  rw [← hsettings]
  exact hf t.settings t u ht htwins

theorem Alike.trainEpoch (train : Dataset Single) (epoch : Nat) :
    Alike (trainEpoch train epoch) := by
  refine Alike.bind (.mapM _ fun b => (Alike.trainBatch b).bind fun _ => .pure _) fun losses => ?_
  exact Alike.settings (f := fun s => Trainer.trainingAccuracy train s.loss >>= fun accuracy =>
      Pure.pure ((Scalar.weightedMean losses).getD .zero, accuracy)) fun s =>
    (Alike.trainingAccuracy train s.loss).bind fun _ => .pure _

/-- An epoch with validation goes as one without, unless the validation fails. -/
theorem runEpoch_cases {t u : Trainer Single} (h : t.IsReady) (htwins : t.Twins u)
    (train d : Dataset Single) (epoch : Nat) :
    (runEpoch train (some d) epoch t).2.Twins (runEpoch train none epoch u).2 ∧
      (runEpoch train (some d) epoch t).2.IsReady ∧
      ∀ e, (runEpoch train (some d) epoch t).1 = .ok e →
        (runEpoch train none epoch u).1 = .ok (withoutValidation e) := by
  obtain ⟨hsame, htwins', h'⟩ := Alike.trainEpoch train epoch t u h htwins
  rw [runEpoch_some, runEpoch_none, bind_apply, bind_apply]
  match ht : trainEpoch train epoch t, hu : trainEpoch train epoch u with
  | (.error e, t'), (r, u') =>
    rw [ht, hu] at hsame htwins'
    rw [ht] at h'
    cases hsame
    exact ⟨htwins', h', fun _ hok => by cases hok⟩
  | (.ok p, t'), (r, u') =>
    rw [ht, hu] at hsame htwins'
    rw [ht] at h'
    cases hsame
    have hrests := Rests.evaluate d t' h'
    have hready : (evaluate d t').2.IsReady := (isReady_congr hrests.1).mp h'
    dsimp only
    rw [bind_apply]
    match hd : evaluate d t' with
    | (.error e, t'') =>
      rw [hd] at hrests hready
      exact ⟨hrests.symm.trans htwins', hready, fun _ hok => by cases hok⟩
    | (.ok q, t'') =>
      rw [hd] at hrests hready
      refine ⟨hrests.symm.trans htwins', hready, ?_⟩
      rintro _ ⟨⟩
      rfl

omit [Scalar α] in
theorem mapM_cons_apply (f : γ → Training α β) (c : γ) (cs : List γ) (t : Trainer α) :
    (c :: cs).mapM f t =
      match f c t with
      | (.ok b, t') => ((cs.mapM f t').1.map (b :: ·), (cs.mapM f t').2)
      | (.error e, t') => (.error e, t') := by
  rw [List.mapM_cons, bind_apply]
  match f c t with
  | (.error e, t') => rfl
  | (.ok b, t') =>
    dsimp only
    rw [bind_apply]
    match cs.mapM f t' with
    | (.error e, t'') => rfl
    | (.ok bs, t'') => rfl

/-- Epochs with validation go as epochs without, as far as they go. -/
theorem runEpochs_cases {t u : Trainer Single} (h : t.IsReady) (htwins : t.Twins u)
    (train d : Dataset Single) (epochs : List Nat) :
    ∃ n ≤ epochs.length,
      (epochs.mapM (runEpoch train (some d)) t).2.Twins
        ((epochs.take n).mapM (runEpoch train none) u).2 ∧
      ∀ es, (epochs.mapM (runEpoch train (some d)) t).1 = .ok es →
        n = epochs.length ∧
          (epochs.mapM (runEpoch train none) u).1 = .ok (es.map withoutValidation) := by
  induction epochs generalizing t u with
  | nil =>
    refine ⟨0, Nat.le_refl 0, htwins, ?_⟩
    rintro _ ⟨⟩
    exact ⟨rfl, rfl⟩
  | cons epoch epochs ih =>
    obtain ⟨hfirst, hready, hhistory⟩ := runEpoch_cases h htwins train d epoch
    match ht : runEpoch train (some d) epoch t with
    | (.error e, t') =>
      -- the last epoch that was trained
      refine ⟨1, by simp, ?_, ?_⟩
      · have htake : (epoch :: epochs).take 1 = [epoch] := rfl
        rw [mapM_cons_apply, ht, htake, mapM_cons_apply]
        rw [ht] at hfirst
        match runEpoch train none epoch u, hfirst with
        | (.error e', u'), hfirst => exact hfirst
        | (.ok b, u'), hfirst => exact hfirst
      · intro es hes
        rw [mapM_cons_apply, ht] at hes
        cases hes
    | (.ok e, t') =>
      rw [ht] at hfirst hready hhistory
      match hu : runEpoch train none epoch u with
      | (r, u') =>
        rw [hu] at hfirst hhistory
        cases hhistory e rfl
        obtain ⟨n, hn, hlast, hall⟩ := ih hready hfirst
        refine ⟨n + 1, Nat.succ_le_succ hn, ?_, ?_⟩
        · rw [mapM_cons_apply, ht, List.take_succ_cons, mapM_cons_apply, hu]
          exact hlast
        · intro es hes
          rw [mapM_cons_apply, ht] at hes
          obtain ⟨es', hes', rfl⟩ := map_eq_ok_iff.mp hes
          obtain ⟨rfl, hmap⟩ := hall es' hes'
          refine ⟨rfl, ?_⟩
          rw [mapM_cons_apply, hu]
          exact map_eq_ok_iff.mpr ⟨_, hmap, rfl⟩

/-- The history but for what was measured in validation. -/
def trainingHistory (h : History) : History := ⟨h.epochs.map withoutValidation⟩

theorem fit_apply (train : Dataset Single) (validation : Option (Dataset Single))
    (t : Trainer Single) :
    fit train validation t =
      (((List.range t.settings.epochs).mapM (runEpoch train validation) t).1.map History.mk,
        ((List.range t.settings.epochs).mapM (runEpoch train validation) t).2) := by
  change ((List.range t.settings.epochs).mapM (runEpoch train validation) >>= fun es =>
    Pure.pure (History.mk es) : Training Single History) t = _
  rw [bind_apply]
  match (List.range t.settings.epochs).mapM (runEpoch train validation) t with
  | (.ok es, t') => rfl
  | (.error e, t') => rfl

/-- A trainer that is ready trains as if it had not been asked for inference: every batch has the
same outcome, and parameters, optimizer and random source are the same in the end. A training with
validation goes through the epochs of the one without, and as far as that is not cut short by a
validation that fails it goes to the end with the same history. -/
theorem inference_leaves_training {t : Trainer Single} (h : t.IsReady) :
    (∀ calls : List (Call Single),
      losses calls t = losses (calls.filter fun c => !c.infers) t ∧
        (runCalls calls t).Agrees (runCalls (calls.filter fun c => !c.infers) t)) ∧
    ∀ train d : Dataset Single,
      (∃ n ≤ t.settings.epochs, (fit train (some d) t).2.Agrees
        ((List.range n).mapM (runEpoch train none) t).2) ∧
      ∀ history, (fit train (some d) t).1 = .ok history →
        (fit train none t).1 = .ok (trainingHistory history) ∧
          (fit train (some d) t).2.Agrees (fit train none t).2 := by
  refine ⟨fun calls => ?_, fun train d => ?_⟩
  · obtain ⟨hlosses, hlast⟩ := calls_alike calls h rfl
    exact ⟨hlosses, agrees_of_bare hlast⟩
  · obtain ⟨n, hn, hlast, hall⟩ :=
      runEpochs_cases h (.refl t) train d (List.range t.settings.epochs)
    rw [List.length_range] at hn hall
    rw [List.take_range, Nat.min_eq_left hn] at hlast
    rw [fit_apply, fit_apply]
    refine ⟨⟨n, hn, agrees_of_bare hlast.1⟩, fun history hok => ?_⟩
    obtain ⟨es, hes, rfl⟩ := map_eq_ok_iff.mp hok
    obtain ⟨rfl, hmap⟩ := hall es hes
    exact ⟨map_eq_ok_iff.mpr ⟨_, hmap, rfl⟩, agrees_of_bare hlast.1⟩

/-- Between two batches the block goes forward, and an evaluation fails. -/
theorem inference_leaves_training_two :
    let weight : Content Single := ⟨.float32, ⟨[1, 1], #[.ofNat 2], rfl⟩, none, true⟩
    let rate : DropoutRate := ⟨⟨0x3f000000⟩, by decide⟩
    let t : Trainer Single := ⟨
      .sequential [.leaf (.dropout rate) [], .leaf (.linear 1 false) [0]],
      { TrainingSettings.default with loss := .l2 }, some ⟨.sgd .one .zero, 0, [⟨0, none, none⟩]⟩,
      { Workspace.seeded 3 with slots := #[⟨"weight", .weight, true, none, some weight⟩] }⟩
    let ones (s : Extents) : DenseArray Single := .ones s
    let b : Batch Single := ⟨ones [2, 1], .zeros [2, 1]⟩
    let calls : List (Call Single) := [.trainBatch b, .leaf (ones [1, 1]) false, .forward [.node 0],
      .evaluateBatch ⟨ones [1, 7], ones [1, 1]⟩, .trainBatch b]
    t.IsReady ∧ calls.filter (fun c => !c.infers) =
        [.trainBatch b, .leaf (ones [1, 1]) false, .trainBatch b] ∧
      losses calls t = losses [.trainBatch b, .leaf (ones [1, 1]) false, .trainBatch b] t ∧
      (losses calls t).map (·.isOk) = [true, true] ∧
      (runCalls calls t).Agrees
        (runCalls [.trainBatch b, .leaf (ones [1, 1]) false, .trainBatch b] t) := by
  intro weight rate t ones b calls
  have hready : t.IsReady := by decide +kernel
  obtain ⟨hlosses, hagrees⟩ := (inference_leaves_training hready).1 calls
  exact ⟨hready, rfl, hlosses, by decide +kernel, hagrees⟩

end Trainer

end NeuralNet
