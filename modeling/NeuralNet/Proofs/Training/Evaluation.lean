import NeuralNet.Proofs.Block.Evaluation
import NeuralNet.Proofs.Block.OpenBatch
import NeuralNet.Proofs.Dataset
import NeuralNet.Proofs.DenseArray.Judgement
import NeuralNet.Proofs.Training.Inference

/-!
# What an evaluation computes

An evaluation as a function of arrays. It fails if it fails on one batch, and else takes the means
of what it computes for each. Where the trainer is not ready it prepares itself first, which comes
out the same for every batch.

* `Block.judge`, `evaluateBatch_fst`: what is computed for a batch;
* `equips_or_fails`: whatever the batch, the preparation;
* `evaluate_ok_iff`: all batches together.
-/

namespace NeuralNet

open Run (Computes Follows Many One)

variable {α β γ : Type}

namespace Run

/-- The result is that on arrays. -/
def Same (b c : β) (_ : Environment α) : Prop := b = c

variable {Γ : Environment α} {x : Run α β} {y : Except Error β}
  {R : β → γ → Environment α → Prop} {z : Except Error γ} {p t : Tensor} {a l : DenseArray α}

theorem Computes.fst (h : Computes Γ Same x y) {w : Workspace α} (hw : w.Holds Γ) :
    (x w).1 = y := by
  have hrun := h w hw
  cases y with
  | error e => exact hrun
  | ok c =>
    obtain ⟨b, -, hok, rfl, -⟩ := hrun
    exact hok

/-- What is recorded makes no difference. -/
theorem Computes.paused {x : Run α β} (h : Computes Γ R x z) : Computes Γ R (Run.paused x) z := by
  intro w hw
  have hrun := h { w with pauses := w.pauses + 1 } hw
  cases z with
  | error e => exact hrun
  | ok c => exact hrun

variable [Scalar α]

theorem Computes.loss (loss : Loss) (hp : (p, a) ∈ Γ) (ht : (t, l) ∈ Γ) :
    Computes Γ One (loss.apply p t : Run α Tensor)
      (loss.evaluate a l >>= fun v => .ok (.scalar v)) := by
  cases loss with
  | l2 =>
    refine .value hp (.value ht ?_)
    unfold Loss.evaluate
    dsimp only
    split
    · exact .fail _ _
    · exact .record _ _
  | softmaxCrossEntropy =>
    refine .value hp ?_
    unfold Loss.evaluate
    dsimp only
    cases a.extents.getLast? with
    | none => exact .throw _
    | some classes =>
      dsimp only
      rw [bind_assoc]
      exact .value ht (.check fun _ _ => .record _ _)

end Run

/-! ## One batch -/

variable [Scalar α]

/-- The loss of a prediction on the tape and, where classes are told apart, its accuracy. -/
def Loss.judgeOn (loss : Loss) (p t : Tensor) : Run α (α × Option α) := do
  let out ← loss.apply p t
  let value := (← Run.value out).entry 0
  match loss with
  | .softmaxCrossEntropy => return (value, some (← Loss.accuracy p t))
  | .l2 => return (value, none)

theorem Loss.judgeOn_computes (loss : Loss) {Γ : Environment α} {p t : Tensor}
    {a l : DenseArray α} (hp : (p, a) ∈ Γ) (ht : (t, l) ∈ Γ) :
    Computes Γ Run.Same (loss.judgeOn p t : Run α _) (loss.judge a l) := by
  have hvalue : loss.judge a l = do
      let out : DenseArray α ← loss.evaluate a l >>= fun v => .ok (.scalar v)
      match loss with
      | .softmaxCrossEntropy => return (out.entry 0, some (← a.accuracy l))
      | .l2 => return (out.entry 0, none) := by
    rw [bind_assoc]
    rfl
  rw [hvalue]
  refine (Computes.loss loss hp ht).one fun out b => .value List.mem_cons_self ?_
  cases loss with
  | l2 => exact .pure rfl
  | softmaxCrossEntropy =>
    have hp' : (p, a) ∈ (out, b) :: Γ := List.mem_cons_of_mem _ hp
    have ht' : (t, l) ∈ (out, b) :: Γ := List.mem_cons_of_mem _ ht
    unfold Loss.accuracy
    dsimp only
    simp only [bind_assoc]
    refine .value hp' (.value ht' ?_)
    exact .check fun _ _ => .pure rfl

/-- How a block with these parameters is judged for a batch. -/
def Block.judge (b : Block) (parameter : Nat → DenseArray α) (loss : Loss)
    (x label : DenseArray α) : Except Error (α × Option α) := do
  match ← b.evaluate parameter [x] with
  | y :: _ => loss.judge y label
  | [] => .error (.invalidArgument .noOutputs)

/-- The same for the samples at some positions. -/
def Block.judgeAt (b : Block) (parameter : Nat → DenseArray α) (loss : Loss)
    (x label : DenseArray α) (js : List Nat) : Except Error (α × Option α) :=
  b.judge parameter loss (x.selectFirst js) (label.selectFirst js)

/-- How a block is judged on the tape. -/
def Block.judgeOn (b : Block) (loss : Loss) (x t : Tensor) : Run α (α × Option α) := do
  match ← Run.paused (b.forward [x]) with
  | p :: _ => loss.judgeOn p t
  | [] => throw (.invalidArgument .noOutputs)

theorem Block.judgeOn_computes {b : Block} {Γ : Environment α} {parameter : Nat → DenseArray α}
    (loss : Loss) {x t : Tensor} {a l : DenseArray α} (hcomplete : b.Complete)
    (hslots : ∀ i ∈ b.slots, (.weight i, parameter i) ∈ Γ) (hx : (x, a) ∈ Γ) (ht : (t, l) ∈ Γ) :
    Computes Γ Run.Same (b.judgeOn loss x t : Run α _) (b.judge parameter loss a l) := by
  have hinputs : Many [x] [a] Γ := .cons hx .nil
  refine Computes.bind (b.forward_computes hcomplete hslots hinputs).paused ?_
  intro ts ys Δ _ hts
  cases hts with
  | nil => exact .throw _
  | cons hp _ =>
    exact loss.judgeOn_computes (List.mem_append_left _ hp) (List.mem_append_right _ ht)

namespace Trainer

omit [Scalar α] in
theorem run_bind (x : Run α β) (f : β → Run α γ) :
    run (x >>= f) = run x >>= fun b => run (f b) := by
  funext t
  rw [bind_apply, run_apply, run_apply, Run.bind_apply]
  rcases x t.workspace with ⟨_ | _, _⟩ <;> rfl

omit [Scalar α] in
theorem run_pure (b : β) : run (Pure.pure b : Run α β) = Pure.pure b := rfl

variable {t : Trainer α}

/-- Outputs are judged in the workspace of the trainer. -/
theorem judge_apply (p : Tensor) (rest : List Tensor) (y : Tensor) (t : Trainer α) :
    judge (p :: rest) y t = run (t.settings.loss.judgeOn p y) t := by
  have hget : judge (p :: rest) y t = (do
      let loss ← run (t.settings.loss.apply p y)
      let value := (← run (Run.value loss)).entry 0
      match t.settings.loss with
      | .softmaxCrossEntropy => return (value, some (← run (Loss.accuracy p y)))
      | .l2 => return (value, none) : Training α (α × Option α)) t := rfl
  rw [hget, Loss.judgeOn]
  cases t.settings.loss <;> simp only [run_bind, run_pure]

/-- The trainer in evaluation, with a batch on the tape. -/
def judging (b : Batch α) (t : Trainer α) : Trainer α :=
  { t.holding b with workspace := { (t.holding b).workspace with training := false } }

theorem judgeNext_of_isReady (h : t.IsReady) (b : Batch α) :
    judgeNext b t = run (t.block.judgeOn t.settings.loss (.node t.workspace.nodes.size)
      (.node (t.workspace.nodes.size + 1))) (t.judging b) := by
  have hready : (t.holding b).IsReady := h
  have hforward : forward [.node t.workspace.nodes.size] (t.holding b) =
      run (Run.paused (t.block.forward [.node t.workspace.nodes.size])) (t.judging b) :=
    forward_of_isReady hready _
  rw [judgeNext_apply, Block.judgeOn, run_bind, bind_apply, bind_apply, hforward]
  match hrun : run (Run.paused (t.block.forward [.node t.workspace.nodes.size])) (t.judging b) with
  | (.error e, u) => rfl
  | (.ok [], u) => rfl
  | (.ok (p :: rest), u) =>
    have hsettings : t.settings = u.settings := congrArg (·.2.settings) hrun
    rw [hsettings]
    exact judge_apply p rest _ u

omit [Scalar α] in
theorem judging_arrays (b : Batch α) (t : Trainer α) :
    (t.judging b).workspace.array? (.node t.workspace.nodes.size) = some b.data ∧
      (t.judging b).workspace.array? (.node (t.workspace.nodes.size + 1)) = some b.labels := by
  have hnodes : (t.judging b).workspace.nodes =
      (t.workspace.nodes.push ⟨b.data, none, false, none⟩).push ⟨b.labels, none, false, none⟩ := rfl
  simp only [Workspace.array?, hnodes, Array.getElem?_push, Array.size_push, if_true]
  simp

/-- A trainer that is ready computes the judgement of a batch. -/
theorem evaluateBatch_fst (h : t.IsReady) (hcomplete : t.block.Complete) (b : Batch α) :
    (evaluateBatch b t).1 =
      t.block.judge t.workspace.parameter t.settings.loss b.data b.labels := by
  let w := (t.judging b).workspace
  let x : Tensor := .node t.workspace.nodes.size
  let y : Tensor := .node (t.workspace.nodes.size + 1)
  obtain ⟨hx, hy⟩ := judging_arrays b t
  obtain ⟨hheld, hdata⟩ := Workspace.array?_eq_some.mp hx
  obtain ⟨hheld', hlabels⟩ := Workspace.array?_eq_some.mp hy
  have hall : ∀ t ∈ [x, y], w.holds t = true :=
    List.forall_mem_cons.mpr ⟨hheld, List.forall_mem_singleton.mpr hheld'⟩
  have hholds := Block.holds_environment (b := t.block) (w := w) h.2 (fun _ _ => rfl) rfl hall
  have hmem : ∀ z ∈ [x, y], (z, w.value z) ∈ t.block.environment w.parameter w [x, y] :=
    fun z hz => Block.mem_environment hz
  rw [evaluateBatch_eq, releasing_apply, judgeNext_of_isReady h, run_apply]
  refine Computes.fst (t.block.judgeOn_computes t.settings.loss hcomplete
    (fun i hi => Block.slot_mem_environment hi) ?_ ?_) hholds
  · exact hdata ▸ hmem x (by simp)
  · exact hlabels ▸ hmem y (by simp)

/-! ## Before the first batch -/

omit [Scalar α] in
theorem bind_fst_of_error {x : Training α β} {f : β → Training α γ} {e : Error}
    (h : (x t).1 = .error e) : ((x >>= f) t).1 = .error e := by
  rw [bind_apply]
  match hx : x t with
  | (r, u) =>
    rw [hx] at h
    cases h
    rfl

/-- The trainer with another optimizer. -/
def equipped (o : Optimizer α) (t : Trainer α) : Trainer α := { t with optimizer := some o }

theorem ensurePrepared_of_none (h : t.optimizer = none) (inputs : List Extents) :
    ensurePrepared inputs t =
      (prepare (inputs.map Shape.ofExtents) >>= fun _ => Pure.pure ()) t := by
  have hready : (t.optimizer.isSome && t.block.isResolved t.workspace) = false := by
    rw [h, Option.isSome_none, Bool.false_and]
  unfold ensurePrepared
  change (if t.optimizer.isSome && t.block.isResolved t.workspace then _ else _ :
    Training α Unit) t = _
  rw [hready]
  rfl

/-- Where nothing is left to resolve, an optimizer is made. -/
theorem ensurePrepared_of_resolve_ok (inputs : List Extents) {outs : List Shape}
    (h : t.optimizer = none)
    (hresolve : t.block.resolve t.settings.initializer (inputs.map Shape.ofExtents) t.workspace =
      (.ok outs, t.workspace)) :
    ensurePrepared inputs t =
      match Optimizer.ofSlots t.settings.optimizer t.block.slots with
      | .ok o => (.ok (), t.equipped o)
      | .error e => (.error e, t) := by
  have hrun : run (t.block.resolve t.settings.initializer (inputs.map Shape.ofExtents)) t =
      (.ok outs, t) := by
    rw [run_apply, hresolve]
  have hprepare : prepare (inputs.map Shape.ofExtents) t =
      match Optimizer.ofSlots t.settings.optimizer t.block.slots with
      | .ok o => (.ok outs, t.equipped o)
      | .error e => (.error e, t) := by
    change (run (t.block.resolve t.settings.initializer (inputs.map Shape.ofExtents)) >>= _) t = _
    rw [bind_of_ok hrun]
    cases Optimizer.ofSlots t.settings.optimizer t.block.slots <;> rfl
  rw [ensurePrepared_of_none h, bind_apply, hprepare]
  cases Optimizer.ofSlots t.settings.optimizer t.block.slots <;> rfl

theorem ensurePrepared_of_resolve_error (inputs : List Extents) {e : Error}
    (h : t.optimizer = none)
    (hresolve : (t.block.resolve t.settings.initializer (inputs.map Shape.ofExtents)
      t.workspace).1 = .error e) :
    (ensurePrepared inputs t).1 = .error e := by
  have hprepare : (prepare (inputs.map Shape.ofExtents) t).1 = .error e := by
    refine bind_fst_of_error (x := run (t.block.resolve t.settings.initializer
      (inputs.map Shape.ofExtents))) ?_
    rw [run_apply, hresolve]
  rw [ensurePrepared_of_none h]
  exact bind_fst_of_error hprepare

/-- The trainer with other nodes on the tape. -/
def withNodes (nodes : Array (Node α)) (t : Trainer α) : Trainer α :=
  { t with workspace := { t.workspace with nodes } }

/-- With all parameters resolved, whether they agree with the plan does not depend on the batch. -/
theorem resolve_batches {n : Nat} {tail : Extents} {outs : List Shape} (fallback : Initializer)
    (hresolved : t.block.isResolved t.workspace = true)
    (hshapes : t.block.outputShapes [Shape.ofExtents (n :: tail)] = .ok outs) :
    (∀ m nodes, ∃ outs', t.block.resolve fallback [Shape.ofExtents (m :: tail)]
        (t.withNodes nodes).workspace = (.ok outs', (t.withNodes nodes).workspace)) ∨
      ∀ m nodes, ∃ e, t.block.resolve fallback [Shape.ofExtents (m :: tail)]
        (t.withNodes nodes).workspace = (.error e, (t.withNodes nodes).workspace) := by
  -- the plan is the same for every batch, and so are the slots
  obtain ⟨plan, hplan⟩ := t.block.plan_batches hshapes
  by_cases haccepts : ∀ p ∈ plan, (t.workspace.slot p.1).Accepts p.2 t.workspace.type
  · have hhas : ∀ p ∈ plan, (t.workspace.slot p.1).Has p.2 t.workspace.type := fun p hp => by
      refine (haccepts p hp).has (List.all_eq_true.mp hresolved _ ?_)
      rw [← Block.plan_slots _ (hplan n).2]
      exact List.mem_map_of_mem hp
    refine .inl fun m nodes => ?_
    obtain ⟨⟨outs', hshapes'⟩, hplan'⟩ := hplan m
    exact ⟨outs', hshapes' ▸ Block.resolve_of_has hplan' hhas⟩
  · refine .inr fun m nodes => ?_
    refine Block.resolve_of_not_plans fallback fun plan' hplans => haccepts ?_
    cases (hplan m).2.symm.trans hplans.plan_eq
    exact hplans.accepts

/-- For batches of such samples the trainer comes to this optimizer, unless it has it. -/
def Equips (t : Trainer α) (tail : Extents) (o : Optimizer α) : Prop :=
  ∀ m nodes, ensurePrepared [m :: tail] (t.withNodes nodes) =
    (.ok (), (t.withNodes nodes).equipped o)

/-- With all parameters resolved the trainer comes to an optimizer or fails, whatever the batch. -/
theorem equips_or_fails {n : Nat} {tail : Extents} {outs : List Shape}
    (hresolved : t.block.isResolved t.workspace = true)
    (hshapes : t.block.outputShapes [Shape.ofExtents (n :: tail)] = .ok outs) :
    (∃ o, t.Equips tail o) ∨
      ∀ m nodes, ∃ e, (ensurePrepared [m :: tail] (t.withNodes nodes)).1 = .error e := by
  cases hoptimizer : t.optimizer with
  | some o =>
    refine .inl ⟨o, fun m nodes => ?_⟩
    have hready : (t.withNodes nodes).IsReady := ⟨congrArg Option.isSome hoptimizer, hresolved⟩
    have hequipped : (t.withNodes nodes).equipped o = t.withNodes nodes := by
      unfold equipped withNodes
      rw [← hoptimizer]
    rw [ensurePrepared_of_isReady hready, hequipped]
  | none =>
    have hnone : ∀ nodes, (t.withNodes nodes).optimizer = none := fun _ => hoptimizer
    rcases resolve_batches t.settings.initializer hresolved hshapes with hresolve | hresolve
    · have hmake : ∀ m nodes, ensurePrepared [m :: tail] (t.withNodes nodes) =
          match Optimizer.ofSlots t.settings.optimizer t.block.slots with
          | .ok o => (.ok (), (t.withNodes nodes).equipped o)
          | .error e => (.error e, t.withNodes nodes) := fun m nodes => by
        obtain ⟨outs', hok⟩ := hresolve m nodes
        exact ensurePrepared_of_resolve_ok [m :: tail] (hnone nodes) hok
      cases ho : Optimizer.ofSlots (α := α) t.settings.optimizer t.block.slots with
      | ok o => exact .inl ⟨o, fun m nodes => by rw [hmake, ho]⟩
      | error e => exact .inr fun m nodes => ⟨e, by rw [hmake, ho]⟩
    · refine .inr fun m nodes => ?_
      obtain ⟨e, herror⟩ := hresolve m nodes
      have hfails := congrArg Prod.fst herror
      exact ⟨e, ensurePrepared_of_resolve_error [m :: tail] (hnone nodes) hfails⟩

theorem forward_of_ensurePrepared {inputs : List Tensor} {o : Optimizer α}
    (hresolved : t.block.isResolved t.workspace = true)
    (h : ensurePrepared (inputs.map fun x => (t.workspace.value x).extents) t =
      (.ok (), t.equipped o)) :
    forward inputs t = forward inputs (t.equipped o) := by
  have hready : (t.equipped o).IsReady := ⟨rfl, hresolved⟩
  rw [forward_of_isReady hready]
  unfold forward
  change (ensurePrepared (inputs.map fun x => (t.workspace.value x).extents) >>= _) t = _
  rw [bind_of_ok h]
  rfl

variable {tail : Extents} {b : Batch α} {m : Nat}

theorem evaluateBatch_of_equips {o : Optimizer α}
    (hresolved : t.block.isResolved t.workspace = true) (h : t.Equips tail o)
    (hb : b.data.extents = m :: tail) :
    evaluateBatch b t = evaluateBatch b (t.equipped o) := by
  have hdata : (t.holding b).workspace.value (.node t.workspace.nodes.size) = b.data :=
    (Workspace.array?_eq_some.mp (judging_arrays b t).1).2
  have hforward : forward [.node t.workspace.nodes.size] (t.holding b) =
      forward [.node t.workspace.nodes.size] ((t.holding b).equipped o) := by
    refine forward_of_ensurePrepared hresolved ?_
    rw [List.map_singleton, hdata, hb]
    exact h m _
  have hnext : judgeNext b t = judgeNext b (t.equipped o) := by
    rw [judgeNext_apply, judgeNext_apply, bind_apply, bind_apply, hforward]
    rfl
  rw [evaluateBatch_eq, releasing_apply, releasing_apply, hnext]
  rfl

theorem evaluateBatch_of_fails
    (h : ∀ m nodes, ∃ e, (ensurePrepared [m :: tail] (t.withNodes nodes)).1 = .error e)
    (hb : b.data.extents = m :: tail) : ∃ e, (evaluateBatch b t).1 = .error e := by
  have hdata : (t.holding b).workspace.value (.node t.workspace.nodes.size) = b.data :=
    (Workspace.array?_eq_some.mp (judging_arrays b t).1).2
  obtain ⟨e, he⟩ := h m (t.holding b).workspace.nodes
  refine ⟨e, ?_⟩
  have hforward : (forward [.node t.workspace.nodes.size] (t.holding b)).1 = .error e := by
    unfold forward
    change ((ensurePrepared [((t.holding b).workspace.value
      (.node t.workspace.nodes.size)).extents] >>= _) (t.holding b)).1 = _
    rw [hdata, hb]
    exact bind_fst_of_error he
  rw [evaluateBatch_eq, releasing_apply, judgeNext_apply]
  exact bind_fst_of_error hforward

/-! ## All batches -/

/-- The means over all batches, weighted by their sizes. -/
def overall (results : List (Nat × α × Option α)) : Option α × Option α :=
  (Scalar.weightedMean (results.map fun (n, loss, _) => (loss, n)),
    Scalar.weightedMean (results.filterMap fun (n, _, hits) => hits.map fun a => (a, n)))

/-- A batch with its size. -/
def evaluateSized (b : Batch α) : Training α (Nat × α × Option α) := do
  return (b.size, ← evaluateBatch b)

theorem evaluate_fst (d : Dataset α) (t : Trainer α) :
    (evaluate d t).1 =
      overall <$> ((d.batchesWith d.batchSize none 0).mapM evaluateSized t).1 := by
  change (((d.batchesWith d.batchSize none 0).mapM evaluateSized >>= fun results =>
    Pure.pure (overall results)) t).1 = _
  rw [bind_apply]
  match (d.batchesWith d.batchSize none 0).mapM evaluateSized t with
  | (.ok results, u) => rfl
  | (.error e, u) => rfl

theorem evaluateSized_apply (b : Batch α) (t : Trainer α) :
    evaluateSized b t =
      ((evaluateBatch b t).1.map fun r => (b.size, r), (evaluateBatch b t).2) := by
  change ((evaluateBatch b >>= fun r => Pure.pure (b.size, r)) t) = _
  rw [bind_apply]
  match evaluateBatch b t with
  | (.ok r, u) => rfl
  | (.error e, u) => rfl

/-- A trainer that is ready evaluates every batch as if it were the first. -/
theorem mapM_evaluateSized (h : t.IsReady) (bs : List (Batch α)) :
    (bs.mapM evaluateSized t).1 =
      bs.mapM fun b => (evaluateBatch b t).1.map fun r => (b.size, r) := by
  induction bs generalizing t with
  | nil => rfl
  | cons b bs ih =>
    rw [mapM_cons_apply, evaluateSized_apply, List.mapM_cons]
    cases (evaluateBatch b t).1 with
    | error e => rfl
    | ok r =>
      have hstate := evaluateBatch_state h b
      have hready : (evaluateBatch b t).2.IsReady := hstate ▸ h
      have hrest : ∀ c, evaluateBatch c (evaluateBatch b t).2 = evaluateBatch c t := fun c => by
        rw [hstate, evaluateBatch_setTraining h]
      have hothers := ih hready
      simp only [hrest] at hothers
      change (bs.mapM evaluateSized (evaluateBatch b t).2).1.map _ = _
      rw [hothers]
      rfl

/-- Whether the trainer comes to an optimizer for batches of such samples. -/
def Prepares (t : Trainer α) (tail : Extents) : Prop := ∃ o, t.Equips tail o

/-- The judgement of the samples at these positions, with their number. -/
def Sized (t : Trainer α) (d : Dataset α) (p : List Nat) (q : Nat × α × Option α) : Prop :=
  ∃ v, t.block.judgeAt t.workspace.parameter t.settings.loss d.data d.labels p = .ok v ∧
    (p.length, v) = q

variable {d : Dataset α} {n : Nat} {outs : List Shape} {ps : List (List Nat)}

theorem mapM_batches_of_equips {o : Optimizer α} {rs : List (Nat × α × Option α)}
    (hcomplete : t.block.Complete) (hresolved : t.block.isResolved t.workspace = true)
    (h : t.Equips d.data.extents.tail o) :
    ((ps.map d.batch).mapM evaluateSized t).1 = .ok rs ↔ List.Forall₂ (t.Sized d) ps rs := by
  have hready : (t.equipped o).IsReady := ⟨rfl, hresolved⟩
  have hsame : ((ps.map d.batch).mapM evaluateSized t).1 =
      ((ps.map d.batch).mapM evaluateSized (t.equipped o)).1 := by
    cases ps with
    | nil => rfl
    | cons p ps =>
      have hextents : (d.batch p).data.extents = p.length :: d.data.extents.tail := rfl
      rw [List.map_cons, mapM_cons_apply, mapM_cons_apply, evaluateSized_apply,
        evaluateSized_apply, evaluateBatch_of_equips hresolved h hextents]
  have hsized : ∀ p q, (evaluateBatch (d.batch p) (t.equipped o)).1.map
      (fun r => ((d.batch p).size, r)) = .ok q ↔ t.Sized d p q := fun p q => by
    rw [evaluateBatch_fst hready hcomplete]
    exact map_eq_ok_iff
  rw [hsame, mapM_evaluateSized hready, mapM_eq_ok_iff, List.forall₂_map_left_iff]
  simp only [hsized]

/-- An evaluation ends well just if the trainer prepares itself, should there be any batch, and
every batch is judged. -/
theorem evaluate_ok_iff {r : Option α × Option α} (hcomplete : t.block.Complete)
    (hresolved : t.block.isResolved t.workspace = true)
    (hshapes : t.block.outputShapes [Shape.ofExtents (n :: d.data.extents.tail)] = .ok outs)
    (hps : d.batchesWith d.batchSize none 0 = ps.map d.batch) :
    (evaluate d t).1 = .ok r ↔ ∃ rs, (ps ≠ [] → t.Prepares d.data.extents.tail) ∧
      List.Forall₂ (t.Sized d) ps rs ∧ overall rs = r := by
  rw [evaluate_fst, map_eq_ok_iff, hps]
  refine exists_congr fun rs => ?_
  rw [← and_assoc]
  refine and_congr_left' ?_
  rcases equips_or_fails hresolved hshapes with ⟨o, ho⟩ | hfails
  · rw [mapM_batches_of_equips hcomplete hresolved ho]
    exact (and_iff_right fun _ => ⟨o, ho⟩).symm
  · cases ps with
    | nil =>
      rw [List.forall₂_nil_left_iff, and_iff_right fun hne => (hne rfl).elim]
      constructor
      · rintro ⟨⟩
        rfl
      · rintro rfl
        rfl
    | cons p ps =>
      have hextents : (d.batch p).data.extents = p.length :: d.data.extents.tail := rfl
      obtain ⟨e, he⟩ := evaluateBatch_of_fails hfails hextents
      rw [List.map_cons, mapM_cons_apply, evaluateSized_apply, he]
      constructor
      · intro h
        cases h
      · rintro ⟨hprepares, -⟩
        obtain ⟨o, ho⟩ := hprepares (List.cons_ne_nil p ps)
        obtain ⟨e, he⟩ := hfails 0 #[]
        rw [ho] at he
        cases he

end Trainer

end NeuralNet
