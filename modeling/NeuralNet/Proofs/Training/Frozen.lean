import NeuralNet.Proofs.Training.Inference

/-!
# Frozen parameters

Training moves a parameter along its gradient. A frozen one is sent no gradient, and the optimizer
passes it by, whatever moments it has kept of it. Running statistics are moved by going forward, so
they are not spoken of here.

* `Slot.frozen_motion`: nothing that training stores moves a frozen parameter;
* `Trains`: a relation that training keeps at one parameter, through batches and epochs, whatever
  comes of them;
* `frozen_stays`: frozen parameters through whole runs.
-/

namespace NeuralNet

open Run (Keeps)

variable {α β γ : Type}

namespace Slot

/-- Frozen, with values that collect no gradient and have none. -/
def Frozen (p : Slot α) : Prop :=
  p.trainable = false ∧ ∃ c, p.content = some c ∧ c.grad = none ∧ c.requiresGrad = false

theorem Sound.frozen {p : Slot α} (h : p.Sound) (hresolved : p.isResolved = true)
    (htrainable : p.trainable = false) : p.Frozen := by
  obtain ⟨c, hc⟩ := Option.isSome_iff_exists.mp hresolved
  obtain ⟨hcollects, hgrad⟩ := h c hc
  rw [htrainable] at hcollects hgrad
  refine ⟨htrainable, c, hc, Option.eq_none_iff_forall_ne_some.mpr fun g hg => ?_, hcollects⟩
  cases (hgrad g hg).2

theorem Frozen.setTrainable {p : Slot α} (h : p.Frozen) : p.setTrainable false = p := by
  obtain ⟨htrainable, ⟨type, data, grad, requiresGrad⟩, hc, hgrad, hcollects⟩ := h
  obtain ⟨name, kind, trainable, initializer, content⟩ := p
  subst htrainable hc hgrad hcollects
  rfl

variable [Scalar α]

/-- Nothing that training stores moves a frozen parameter. -/
theorem frozen_motion : Slot.Motion fun p p' : Slot α => p.Frozen → p' = p where
  refl _ _ := rfl
  trans h h' hp := by
    have hfirst := h hp
    exact (h' (hfirst ▸ hp)).trans hfirst
  resolve {p p'} _ _ _ _ _ h hp := by
    obtain ⟨-, c, hc, -⟩ := hp
    obtain ⟨resolved, hcheck, h⟩ := bind_eq_ok_iff.mp h
    have hresolved : resolved = true := by
      rw [checkCompatible, hc] at hcheck
      dsimp only at hcheck
      split at hcheck
      · cases hcheck
      · split at hcheck <;> cases hcheck
        rfl
    subst hresolved
    cases h
    rfl
  advance {settings steps t t' p p'} h hp := by
    have hpass : Optimizer.advance settings steps t p = .ok (t, p) := by
      rw [Optimizer.advance, hp.1]
      rfl
    cases hpass.symm.trans h
    rfl
  dropGradient p hp := by
    obtain ⟨-, ⟨type, data, grad, requiresGrad⟩, hc, hgrad, -⟩ := hp
    obtain ⟨name, kind, trainable, initializer, content⟩ := p
    subst hc hgrad
    rfl
  addGradient {p c g} hc hcollects _ hp := by
    obtain ⟨-, c', hc', -, hfrozen⟩ := hp
    cases hc.symm.trans hc'
    cases hcollects.symm.trans hfrozen

end Slot

theorem Workspace.value_setTrainable (w : Workspace α) (j : Nat) (trainable : Bool) (u : Tensor) :
    (w.modifySlot j (·.setTrainable trainable)).value u = w.value u := by
  cases u with
  | node id => rfl
  | weight i =>
    rw [value, value, content?_eq, content?_eq]
    rcases w.slot_modifySlot_cases i j (·.setTrainable trainable) with hsame | ⟨-, hslot⟩
    · rw [hsame]
    · rw [hslot, Slot.setTrainable]
      cases (w.slot i).content <;> rfl

namespace Block

mutual

/-- Every slot of a layer is of the kind that the layer declares. -/
def Declares (w : Workspace α) : Block → Prop
  | leaf l slots => slots.map (fun i => (w.slot i).kind) = l.declared.map (·.2)
  | sequential bs => DeclaresAll w bs

def DeclaresAll (w : Workspace α) : List Block → Prop
  | [] => True
  | b :: rest => b.Declares w ∧ DeclaresAll w rest

end

mutual

def decidableDeclares (w : Workspace α) : (b : Block) → Decidable (b.Declares w)
  | leaf l slots =>
    inferInstanceAs (Decidable (slots.map (fun i => (w.slot i).kind) = l.declared.map (·.2)))
  | sequential bs => decidableDeclaresAll w bs

def decidableDeclaresAll (w : Workspace α) : (bs : List Block) → Decidable (DeclaresAll w bs)
  | [] => .isTrue trivial
  | b :: rest => @instDecidableAnd _ _ (decidableDeclares w b) (decidableDeclaresAll w rest)

end

instance (b : Block) (w : Workspace α) : Decidable (b.Declares w) := decidableDeclares w b

mutual

/-- Running statistics are none of the parameters that are trained. -/
theorem Declares.kind_of_mem_statistics {w : Workspace α} {i : Nat} :
    {b : Block} → b.Declares w → i ∈ b.statistics → (w.slot i).kind.isTrainable = false
  | leaf l slots, h, hi => by
    cases l with
    | batchNorm axis epsilon momentum =>
      obtain ⟨_, _, mean, variance, rfl⟩ :=
        List.length_eq_four.mp ((List.length_map _).symm.trans (congrArg List.length h))
      obtain ⟨-, -, hmean, hvariance⟩ : _ ∧ _ ∧ _ ∧ _ := by simpa [Layer.declared, Declares] using h
      rcases List.mem_pair.mp hi with rfl | rfl
      · exact congrArg _ hmean
      · exact congrArg _ hvariance
    | _ => cases hi
  | sequential bs, h, hi => DeclaresAll.kind_of_mem_statistics h hi

theorem DeclaresAll.kind_of_mem_statistics {w : Workspace α} {i : Nat} :
    {bs : List Block} → DeclaresAll w bs → i ∈ statisticsAll bs →
      (w.slot i).kind.isTrainable = false
  | b :: bs, h, hi => by
    rcases List.mem_append.mp hi with hi | hi
    · exact h.1.kind_of_mem_statistics hi
    · exact DeclaresAll.kind_of_mem_statistics h.2 hi

end

end Block

/-! ## What training keeps at one parameter -/

/-- Going forward through the block keeps the relation at the parameter. -/
def Block.Bears [Scalar α] (b : Block) (R : Slot α → Slot α → Prop) (i : Nat) : Prop :=
  ∀ ts w, R (w.slot i) ((b.forward ts w).2.slot i)

namespace Trainer

variable [Scalar α] {R : Slot α → Slot α → Prop} {i : Nat}

/-- Whatever comes of the computation, the block stays and the relation holds at the parameter. -/
def Trains (R : Slot α → Slot α → Prop) (i : Nat) (x : Training α β) : Prop :=
  ∀ t, t.block.Bears R i →
    (x t).2.block = t.block ∧ R (t.workspace.slot i) ((x t).2.workspace.slot i)

/-- The relation is that of a parameter that bears what training stores. -/
theorem Trains.bind (h : Slot.Motion R) {x : Training α β} {f : β → Training α γ}
    (hx : Trains R i x) (hf : ∀ b, Trains R i (f b)) : Trains R i (x >>= f) := by
  intro t ht
  obtain ⟨hblock, hslot⟩ := hx t ht
  refine bind_state (R := fun u => u.block = t.block ∧ R (t.workspace.slot i) (u.workspace.slot i))
    (fun _ _ => ⟨hblock, hslot⟩) fun b _ => ?_
  obtain ⟨hblock', hslot'⟩ := hf b (x t).2 (hblock ▸ ht)
  exact ⟨hblock'.trans hblock, h.trans hslot hslot'⟩

/-- What is read of the trainer may be used to go forward. -/
theorem Trains.get {f : Trainer α → Training α β}
    (hf : ∀ t, t.block.Bears R i → Trains R i (f t)) : Trains R i (get >>= f) :=
  fun t ht => hf t ht t ht

theorem Trains.run {x : Run α β} (hx : ∀ w : Workspace α, R (w.slot i) ((x w).2.slot i)) :
    Trains R i (run x) := fun t _ => ⟨rfl, hx t.workspace⟩

theorem Trains.releasing {x : Training α β} (hx : Trains R i x) : Trains R i (releasing x) :=
  fun t ht => hx t ht

section Motion

variable (h : Slot.Motion R)

include h

theorem Trains.pure (b : β) : Trains R i (Pure.pure b : Training α β) := fun _ _ => ⟨rfl, h.refl _⟩

theorem Trains.throw (e : Error) : Trains R i (throw e : Training α β) := fun _ _ => ⟨rfl, h.refl _⟩

theorem Trains.mapM {f : γ → Training α β} (cs : List γ) (hf : ∀ c, Trains R i (f c)) :
    Trains R i (cs.mapM f) := by
  induction cs with
  | nil => exact .pure h []
  | cons c cs ih =>
    rw [List.mapM_cons]
    exact Trains.bind h (hf c) fun b => Trains.bind h ih fun bs => .pure h (b :: bs)

/-- A computation that keeps the relation at all parameters keeps it at this one. -/
theorem Trains.keeps {x : Run α β} (hx : Keeps (Frame.ofMotion h) x) : Trains R i (Trainer.run x) :=
  .run fun w => hx w i

theorem Trains.prediction (outputs : List Tensor) :
    Trains R i (prediction outputs : Training α Tensor) := by
  cases outputs with
  | nil => exact .throw h _
  | cons first rest => exact .pure h first

theorem Trains.setTraining (training : Bool) :
    Trains R i (setTraining training : Training α Unit) := fun _ _ => ⟨rfl, h.refl _⟩

theorem Trains.prepare (inputs : List Shape) :
    Trains R i (prepare inputs : Training α (List Shape)) := by
  refine Trains.get fun t _ => Trains.bind h (.keeps h (h.keeps_resolve _ _ _)) fun outputs => ?_
  split
  · exact fun _ _ => ⟨rfl, h.refl _⟩
  · exact .throw h _

theorem Trains.ensurePrepared (inputs : List Extents) :
    Trains R i (ensurePrepared inputs : Training α Unit) := by
  refine Trains.get fun t _ => ?_
  split
  · exact .pure h ()
  · exact Trains.bind h (.prepare h _) fun _ => .pure h ()

theorem Trains.forward (inputs : List Tensor) :
    Trains R i (forward inputs : Training α (List Tensor)) := by
  refine Trains.get fun t ht => Trains.bind h (.ensurePrepared h _) fun _ => ?_
  refine Trains.bind h (.setTraining h false) fun _ => .run fun w => ?_
  exact ht inputs { w with pauses := w.pauses + 1 }

theorem Trains.step : Trains R i (step : Training α Unit) := by
  intro t _
  unfold Trainer.step
  cases t.optimizer with
  | none => exact ⟨rfl, h.refl _⟩
  | some o => exact ⟨rfl, h.rel_advanceAll o.settings (o.steps + 1) o.tracked t.workspace i⟩

theorem Trains.dropGradients : Trains R i (dropGradients : Training α Unit) := by
  intro t ht
  rw [dropGradients_apply]
  cases t.optimizer with
  | none => exact ⟨rfl, h.refl _⟩
  | some o => exact Trains.keeps h (h.keeps_dropGradients o) t ht

theorem Trains.trainBatch (b : Batch α) : Trains R i (trainBatch b : Training α α) := by
  refine Trains.releasing <| Trains.bind h (.keeps h (.leaf b.data false)) fun x => ?_
  refine Trains.bind h (.keeps h (.leaf b.labels false)) fun y => ?_
  refine Trains.bind h (.ensurePrepared h _) fun _ => Trains.get fun t ht => ?_
  refine Trains.bind h (.setTraining h true) fun _ => Trains.bind h (.dropGradients h) fun _ => ?_
  refine Trains.bind h (.run (ht [x])) fun outputs => ?_
  refine Trains.bind h (.prediction h outputs) fun predicted => ?_
  refine Trains.bind h (.keeps h (.loss t.settings.loss predicted y)) fun loss => ?_
  refine Trains.bind h (.keeps h (.backward h.keeps_addGradient loss)) fun _ => ?_
  exact Trains.bind h (.step h) fun _ => Trains.bind h (.keeps h (.value loss)) fun _ => .pure h _

theorem Trains.judge (outputs : List Tensor) (y : Tensor) :
    Trains R i (judge outputs y : Training α (α × Option α)) := by
  refine Trains.bind h (.prediction h outputs) fun predicted => Trains.get fun t _ => ?_
  refine Trains.bind h (.keeps h (.loss t.settings.loss predicted y)) fun loss => ?_
  refine Trains.bind h (.keeps h (.value loss)) fun value => ?_
  cases t.settings.loss with
  | softmaxCrossEntropy =>
    refine Trains.bind h (.keeps h ?_) fun _ => .pure h _
    exact (Keeps.value predicted).bind fun _ => (Keeps.value y).bind fun _ => .check _
  | l2 => exact .pure h _

theorem Trains.evaluateBatch (b : Batch α) : Trains R i (evaluateBatch b) := by
  rw [evaluateBatch_eq]
  refine Trains.releasing <| Trains.bind h (.keeps h (.leaf b.data false)) fun x => ?_
  refine Trains.bind h (.keeps h (.leaf b.labels false)) fun y => ?_
  exact Trains.bind h (.forward h [x]) fun outputs => .judge h outputs y

theorem Trains.evaluate (d : Dataset α) : Trains R i (evaluate d) :=
  Trains.bind h (.mapM h _ fun b => Trains.bind h (.evaluateBatch h b) fun _ => .pure h _)
    fun _ => .pure h _

end Motion

section Epochs

variable {R : Slot Single → Slot Single → Prop} (h : Slot.Motion R)

include h

theorem Trains.trainEpoch (train : Dataset Single) (epoch : Nat) :
    Trains R i (trainEpoch train epoch) := by
  refine Trains.bind h (.mapM h _ fun b => Trains.bind h (.trainBatch h b) fun _ => .pure h _)
    fun losses => Trains.get fun t _ => ?_
  refine Trains.bind h ?_ fun _ => .pure h _
  unfold trainingAccuracy
  split
  · rw [map_eq_pure_bind]
    exact Trains.bind h (.evaluate h train) fun _ => .pure h _
  · exact .pure h none

theorem Trains.runEpoch (train : Dataset Single) (validation : Option (Dataset Single))
    (epoch : Nat) : Trains R i (runEpoch train validation epoch) := by
  cases validation with
  | none =>
    rw [runEpoch_none]
    exact Trains.bind h (.trainEpoch h train epoch) fun _ => .pure h _
  | some d =>
    rw [runEpoch_some]
    exact Trains.bind h (.trainEpoch h train epoch) fun _ =>
      Trains.bind h (.evaluate h d) fun _ => .pure h _

theorem Trains.fit (train : Dataset Single) (validation : Option (Dataset Single)) :
    Trains R i (fit train validation) :=
  Trains.get fun _ _ => Trains.bind h (.mapM h _ fun epoch => .runEpoch h train validation epoch)
    fun _ => .pure h _

end Epochs

/-! ## Runs -/

/-- What a run is made of: batches and whole trainings, and parameters frozen or freed between
them. -/
inductive Lesson where
  | batch (b : Batch Single)
  | epochs (train : Dataset Single) (validation : Option (Dataset Single))
  | setTrainable (slot : Nat) (trainable : Bool)

namespace Lesson

/-- The trainer after a lesson, whatever came of it. -/
def run : Lesson → Trainer Single → Trainer Single
  | batch b, t => (Trainer.trainBatch b t).2
  | epochs train validation, t => (Trainer.fit train validation t).2
  | setTrainable j trainable, t =>
    { t with workspace := t.workspace.modifySlot j (·.setTrainable trainable) }

/-- A lesson keeps the block, and a relation that bears training unless it is the parameter that is
frozen or freed. -/
theorem run_trains {R : Slot Single → Slot Single → Prop} (h : Slot.Motion R) {t : Trainer Single}
    (ht : t.block.Bears R i) (l : Lesson) :
    (l.run t).block = t.block ∧ (R (t.workspace.slot i) ((l.run t).workspace.slot i) ∨
      ∃ trainable, l = .setTrainable i trainable ∧
        (l.run t).workspace.slot i = (t.workspace.slot i).setTrainable trainable) := by
  cases l with
  | batch b =>
    obtain ⟨hblock, hslot⟩ := Trains.trainBatch h b t ht
    exact ⟨hblock, .inl hslot⟩
  | epochs train validation =>
    obtain ⟨hblock, hslot⟩ := Trains.fit h train validation t ht
    exact ⟨hblock, .inl hslot⟩
  | setTrainable j trainable =>
    refine ⟨rfl, ?_⟩
    rcases t.workspace.slot_modifySlot_cases i j (·.setTrainable trainable) with
      hsame | ⟨rfl, hslot⟩
    · exact .inl (hsame.symm ▸ h.refl _)
    · exact .inr ⟨trainable, rfl, hslot⟩

end Lesson

/-- The trainer after all lessons. -/
def learn (lessons : List Lesson) (t : Trainer Single) : Trainer Single :=
  lessons.foldl (fun t l => l.run t) t

/-- How a trainer comes about: of any block, with any optimizer, in a workspace in which anything may
have happened, trainings by other trainers too. -/
inductive Reached : Trainer Single → Prop
  | start (block : Block) (settings : TrainingSettings) (optimizer : Option (Optimizer Single))
      (seed : Nat) : Reached ⟨block, settings, optimizer, .seeded seed⟩
  | event {t : Trainer Single} (e : Session.Event) :
      Reached t → Reached { t with workspace := e.run t.workspace }
  | lesson {t : Trainer Single} (l : Lesson) : Reached t → Reached (l.run t)
  | next {t : Trainer Single} (block : Block) (settings : TrainingSettings)
      (optimizer : Option (Optimizer Single)) (random : RandomSource) :
      Reached t → Reached ⟨block, settings, optimizer, { t.workspace with random }⟩

theorem Reached.sound {t : Trainer Single} (h : Reached t) (i : Nat) :
    (t.workspace.slot i).Sound := by
  induction h with
  | start =>
    intro c hc
    cases hc
  | event e _ ih => exact (Session.lives_run e _ i).sound ih
  | next _ _ _ _ _ ih => exact ih
  | @lesson t l _ ih =>
    have hbears : t.block.Bears (Slot.Lives (α := Single)) i := fun ts w =>
      Slot.life_law.keeps_forward Slot.lives_setData t.block ts w i
    obtain ⟨-, hlives | ⟨trainable, -, hslot⟩⟩ := l.run_trains Slot.life_law.toMotion hbears
    · exact hlives.sound ih
    · rw [hslot]
      exact (Slot.lives_setTrainable _ trainable).sound ih

variable {t : Trainer Single} {i : Nat}

theorem slot_learn (hi : i ∉ t.block.statistics) (hp : (t.workspace.slot i).Frozen)
    (lessons : List Lesson) (hfrozen : ∀ n ≤ lessons.length,
      ((learn (lessons.take n) t).workspace.slot i).trainable = false) :
    (learn lessons t).workspace.slot i = t.workspace.slot i := by
  induction lessons generalizing t with
  | nil => rfl
  | cons l rest ih =>
    have hbears : t.block.Bears (fun p p' : Slot Single => p.Frozen → p' = p) i := fun ts w _ =>
      t.block.slot_forward ts w fun _ => hi
    obtain ⟨hblock, hslot⟩ := l.run_trains Slot.frozen_motion hbears
    have hsame : (l.run t).workspace.slot i = t.workspace.slot i := by
      rcases hslot with hmotion | ⟨trainable, -, hset⟩
      · exact hmotion hp
      · have htrainable : ((l.run t).workspace.slot i).trainable = false :=
          hfrozen 1 (Nat.le_add_left 1 _)
        rw [hset] at htrainable
        have hflag : trainable = false := htrainable
        rw [hset, hflag, hp.setTrainable]
    have hrest : (learn rest (l.run t)).workspace.slot i = (l.run t).workspace.slot i :=
      ih (hblock ▸ hi) (hsame ▸ hp) fun n hn => hfrozen (n + 1) (Nat.succ_le_succ hn)
    exact hrest.trans hsame

/-- A weight, a shift or a scale that stays frozen stays as it is, to the bit, and has no gradient,
through every run of a trainer, whatever of it fails and whatever moments the optimizer came with.
Freezing or freeing a parameter changes no values, and of the others nothing. -/
theorem frozen_stays (hreached : Reached t) (hdeclares : t.block.Declares t.workspace)
    (hkind : (t.workspace.slot i).kind.isTrainable = true)
    (hresolved : (t.workspace.slot i).isResolved = true) (lessons : List Lesson)
    (hfrozen : ∀ n ≤ lessons.length,
      ((learn (lessons.take n) t).workspace.slot i).trainable = false) :
    (learn lessons t).workspace.slot i = t.workspace.slot i ∧
      (learn lessons t).workspace.gradient (.weight i) = none ∧
      ∀ (w : Workspace Single) (j : Nat) (trainable : Bool),
        (∀ u, (w.modifySlot j (·.setTrainable trainable)).value u = w.value u) ∧
          ∀ k ≠ j, (w.modifySlot j (·.setTrainable trainable)).slot k = w.slot k := by
  have hp : (t.workspace.slot i).Frozen :=
    (hreached.sound i).frozen hresolved (hfrozen 0 (Nat.zero_le _))
  have hi : i ∉ t.block.statistics := fun hmem => by
    rw [hdeclares.kind_of_mem_statistics hmem] at hkind
    cases hkind
  have hsame := slot_learn hi hp lessons hfrozen
  refine ⟨hsame, ?_, fun w j trainable => ⟨fun u => ?_, fun k hk => ?_⟩⟩
  · obtain ⟨-, c, hc, hgrad, -⟩ := hp
    rw [Workspace.gradient_weight, hsame, hc]
    exact hgrad
  · exact w.value_setTrainable j trainable u
  · exact Workspace.slot_modifySlot_of_ne hk.symm

/-- A weight is frozen after it has gathered momentum. The bias beside it moves on, although the second
batch fails. -/
theorem frozen_stays_weight :
    let l : Layer := .linear 1 true
    let half : Single := ⟨0x3f000000⟩
    let quarter : Single := ⟨0x3e800000⟩
    let start : Trainer Single := ⟨.leaf l [0, 1], ⟨.ones, .sgd quarter half, .l2, 1, none⟩, none,
      (Session.Event.action (.declare l)).run (.seeded 0)⟩
    let b : Batch Single := ⟨⟨[1, 1], #[.one], rfl⟩, ⟨[1, 1], #[.zero], rfl⟩⟩
    let wide : Batch Single := ⟨⟨[1, 2], #[.one, .one], rfl⟩, ⟨[1, 1], #[.zero], rfl⟩⟩
    let d : Dataset Single := ⟨b.data, b.labels, 1, none, 1, rfl, rfl, by decide⟩
    let t := learn [.batch b, .setTrainable 0 false] start
    let lessons : List Lesson := [.batch b, .batch wide, .epochs d (some d)]
    let values (t : Trainer Single) (i : Nat) := (t.workspace.value (.weight i)).toList
    values start 0 ≠ values t 0 ∧ (trainBatch wide t).1.isOk = false ∧
      (learn lessons t).workspace.slot 0 = t.workspace.slot 0 ∧
      (learn lessons t).workspace.gradient (.weight 0) = none ∧
      values (learn lessons t) 1 ≠ values t 1 := by
  intro l half quarter start b wide d t lessons values
  have hreached : Reached t :=
    .lesson (.setTrainable 0 false) (.lesson (.batch b) (.event (.action (.declare l))
      (.start start.block start.settings none 0)))
  have hdeclares : t.block.Declares t.workspace := by decide +kernel
  have hkind : (t.workspace.slot 0).kind.isTrainable = true := by decide +kernel
  have hresolved : (t.workspace.slot 0).isResolved = true := by decide +kernel
  have hfrozen : ∀ n ≤ lessons.length,
      ((learn (lessons.take n) t).workspace.slot 0).trainable = false := by decide +kernel
  obtain ⟨hsame, hgrad, -⟩ := frozen_stays hreached hdeclares hkind hresolved lessons hfrozen
  exact ⟨by decide +kernel, by decide +kernel, hsame, hgrad, by decide +kernel⟩

end Trainer

end NeuralNet
