import NeuralNet.Proofs.Session.Action

/-!
# Laws of storing

Loading, importing, initializing and stepping store something in a parameter, and so does a gradient
that comes or goes. A law is a relation between a parameter before and after that all of them bear;
it then holds of every parameter across every action, `rel_run`. Of training alone a relation has to
bear less, `Slot.Motion`.
-/

namespace NeuralNet

open Run

/-- A relation between a parameter before and after that bears first values, steps, and gradients
that come and go. -/
structure Slot.Motion {α : Type} [Scalar α] (R : Slot α → Slot α → Prop) : Prop where
  refl : ∀ p, R p p
  trans : ∀ {p₁ p₂ p₃}, R p₁ p₂ → R p₂ p₃ → R p₁ p₃
  resolve : ∀ {p p' fallback s type source source'},
    p.resolve fallback s type source = .ok (p', source') → R p p'
  advance : ∀ {settings steps t t' p p'},
    Optimizer.advance settings steps t p = .ok (t', p') → R p p'
  dropGradient : ∀ p, R p { p with content := p.content.map fun c => { c with grad := none } }
  /-- The first gradient has the extents of the values, and each sum those of the gradient before. -/
  addGradient : ∀ {p c g}, p.content = some c → c.requiresGrad = true →
    g.extents = (c.grad.getD c.data).extents →
    R p { p with content := some { c with grad := some g } }

/-- A relation between a parameter before and after that bears whatever is stored in it, except for
values as they were computed. -/
structure Slot.Law {α : Type} [Scalar α] (R : Slot α → Slot α → Prop) : Prop
    extends Slot.Motion R where
  withInitializer : ∀ p i, R p (p.withInitializer i)
  setArray : ∀ {p p' type a}, p.setArray type a = .ok p' → R p p'
  requantize : ∀ p, R p p.requantize

variable {α : Type} [Scalar α]

/-- Every parameter is related to itself before. -/
def Frame.ofMotion {R : Slot α → Slot α → Prop} (h : Slot.Motion R) : Frame α where
  Rel w w' := ∀ i, R (w.slot i) (w'.slot i)
  refl _ _ := h.refl _
  trans h₁ h₂ i := h.trans (h₁ i) (h₂ i)
  push _ _ _ := h.refl _
  random _ _ _ _ := h.refl _

/-- Every parameter follows the law. -/
abbrev Frame.ofLaw {R : Slot α → Slot α → Prop} (h : Slot.Law R) : Frame α := .ofMotion h.toMotion

namespace Workspace

variable (w : Workspace α) (i : Nat)

omit [Scalar α] in
theorem requiresGrad_weight :
    w.requiresGrad (.weight i) = ((w.slot i).content.map (·.requiresGrad)).getD false := by
  rw [requiresGrad, content?_eq]

omit [Scalar α] in
theorem content_of_requiresGrad {i : Nat} (h : w.requiresGrad (.weight i) = true) :
    ∃ c, (w.slot i).content = some c ∧ c.requiresGrad = true := by
  rw [requiresGrad_weight] at h
  cases hc : (w.slot i).content with
  | none =>
    rw [hc] at h
    cases h
  | some c =>
    rw [hc] at h
    exact ⟨c, rfl, h⟩

omit [Scalar α] in
theorem gradient_weight : w.gradient (.weight i) = (w.slot i).content.bind (·.grad) := by
  rw [gradient, content?_eq]

omit [Scalar α] in
theorem lt_size_of_isResolved {i : Nat} (h : (w.slot i).isResolved = true) : i < w.slots.size := by
  by_contra hi
  rw [slot, Array.getD_eq_getD_getElem?, Array.getElem?_eq_none (by omega)] at h
  cases h

omit [Scalar α] in
theorem value_weight {c : Content α} (h : (w.slot i).content = some c) :
    w.value (.weight i) = c.data := by
  rw [value, content?_eq, h]
  rfl

end Workspace

namespace Slot.Motion

variable {R : Slot α → Slot α → Prop} (h : Motion R) {w : Workspace α}

include h

theorem rel_modifySlot {j : Nat} {f : Slot α → Slot α}
    (hf : R (w.slot j) (f (w.slot j))) : (Frame.ofMotion h).Rel w (w.modifySlot j f) := by
  intro i
  rcases w.slot_modifySlot_cases i j f with hsame | ⟨rfl, hslot⟩
  · exact hsame ▸ h.refl _
  · exact hslot ▸ hf

theorem keeps_dropGradient (t : Tensor) : Keeps (Frame.ofMotion h) (Run.dropGradient t) := by
  intro w
  cases t with
  | node id => exact (Frame.ofMotion h).refl w
  | weight i => exact h.rel_modifySlot (j := i) (h.dropGradient _)

theorem keeps_addGradient (t : Tensor) (g : DenseArray α) :
    Keeps (Frame.ofMotion h) (Run.addGradient t g) := by
  refine fun w => rel_get ?_
  dsimp only
  split
  · rename_i hwants
    split
    · rename_i hextents
      cases t with
      | node id => exact (Frame.ofMotion h).refl w
      | weight i =>
        obtain ⟨c, hc, hcollects⟩ := w.content_of_requiresGrad hwants
        rw [w.value_weight i hc] at hextents
        have hold : w.gradient (.weight i) = c.grad := by rw [w.gradient_weight, hc]; rfl
        refine h.rel_modifySlot ?_
        rw [hold, hc]
        refine h.addGradient hc hcollects ?_
        cases c.grad with
        | none => exact hextents.symm
        | some old => rfl
    · exact (Frame.ofMotion h).refl w
  · exact (Frame.ofMotion h).refl w

theorem keeps_resolveSlot (fallback : Initializer) (i : Nat) (s : Extents) :
    Keeps (Frame.ofMotion h) (Block.resolveSlot fallback i s) := by
  refine fun w => rel_get ?_
  rw [bind_apply, check_apply]
  match hp : (w.slot i).resolve fallback s w.type w.random with
  | .error e => exact (Frame.ofMotion h).refl w
  | .ok (p, source) => exact h.rel_modifySlot (h.resolve hp)

theorem keeps_resolve (b : Block) (fallback : Initializer) (inputs : List Shape) :
    Keeps (Frame.ofMotion h) (b.resolve fallback inputs) := by
  unfold Block.resolve
  refine Keeps.get.bind fun w => (Keeps.check _).bind fun plan => ?_
  refine (Keeps.check _).bind fun resolved => ?_
  refine Keeps.bind (.forM _ ?_) fun _ => .check _
  rintro ⟨i, s⟩
  exact h.keeps_resolveSlot fallback i s

theorem keeps_dropGradients (o : Optimizer α) :
    Keeps (Frame.ofMotion h) (o.dropGradients : Run α Unit) :=
  .forM _ fun _ => (Keeps.weight _).bind fun _ => h.keeps_dropGradient _

end Slot.Motion

namespace Optimizer

theorem slot_update (settings : OptimizerSettings) (steps : Nat)
    (t : Tracked α) (data g : DenseArray α) : (update settings steps t data g).1.slot = t.slot := by
  cases settings with
  | sgd rate momentum =>
    unfold update
    dsimp only
    split <;> rfl
  | adam => rfl

/-- A frozen parameter stays as it is, and so does one without a gradient. -/
theorem advance_cases {settings : OptimizerSettings} {steps : Nat} {t t' : Tracked α}
    {p p' : Slot α} (h : advance settings steps t p = .ok (t', p')) :
    (t' = t ∧ p' = p) ∨ ∃ c g, p.content = some c ∧ c.grad = some g ∧
      t' = (update settings steps t c.data g).1 ∧
      p' = ({ p with
        content := some { c with data := (update settings steps t c.data g).2 } } :
        Slot α).requantize := by
  unfold advance at h
  split at h
  · cases h
    exact .inl ⟨rfl, rfl⟩
  · obtain ⟨c, hc, h⟩ := bind_eq_ok_iff.mp h
    have hcontent : p.content = some c := by
      unfold Slot.require at hc
      cases hp : p.content with
      | none =>
        rw [hp] at hc
        cases hc
      | some c' =>
        rw [hp] at hc
        cases hc
        rfl
    split at h
    · cases h
      exact .inl ⟨rfl, rfl⟩
    · rename_i g hg
      cases h
      exact .inr ⟨c, g, hcontent, hg, rfl, rfl⟩

end Optimizer

theorem Slot.Motion.rel_advanceAll {R : Slot α → Slot α → Prop} (h : Slot.Motion R)
    (settings : OptimizerSettings) (steps : Nat) (tracked : List (Tracked α)) (w : Workspace α) :
    (Frame.ofMotion h).Rel w (Optimizer.advanceAll settings steps tracked w).2.2 := by
  induction tracked generalizing w with
  | nil => exact (Frame.ofMotion h).refl w
  | cons t tracked ih =>
    unfold Optimizer.advanceAll
    split
    · exact (Frame.ofMotion h).refl w
    · rename_i t' p hp
      have hslot : t'.slot = t.slot := by
        rcases Optimizer.advance_cases hp with ⟨rfl, -⟩ | ⟨c, g, -, -, rfl, -⟩
        · rfl
        · exact Optimizer.slot_update ..
      have hfirst : (Frame.ofMotion h).Rel w (w.modifySlot t'.slot fun _ => p) :=
        h.rel_modifySlot (hslot ▸ h.advance hp)
      exact (Frame.ofMotion h).trans hfirst (ih _)

/-- A relation that bears values as they were computed holds across going forward. -/
theorem Slot.Motion.keeps_forward {R : Slot α → Slot α → Prop} (h : Slot.Motion R)
    (hdata : ∀ {p c a}, p.content = some c → a.extents = c.data.extents →
      R p { p with content := some { c with data := a } }) (b : Block) (ts : List Tensor) :
    Keeps (Frame.ofMotion h) (b.forward ts) := by
  refine b.forward_keeps ts fun j _ w a _ ha => h.rel_modifySlot ?_
  cases hc : (w.slot j).content with
  | none =>
    have hsame : { w.slot j with content := none } = w.slot j := by rw [← hc]
    rw [Option.map_none, hsame]
    exact h.refl _
  | some c =>
    rw [w.value_weight j hc] at ha
    exact hdata hc ha

/-! ## Sessions -/

namespace Slot.Law

variable {R : Slot Single → Slot Single → Prop} (h : Law R)

include h

theorem keeps_storeOne (s : ParameterList.Staged) :
    Keeps (Frame.ofLaw h) (ParameterList.storeOne s) := by
  intro w
  rw [ParameterList.storeOne_apply]
  split
  · rename_i p hp
    exact h.rel_modifySlot (h.setArray hp)
  · exact (Frame.ofLaw h).refl w

theorem keeps_commit (staged : List ParameterList.Staged) :
    Keeps (Frame.ofLaw h) (ParameterList.commit staged) :=
  .forM staged h.keeps_storeOne

theorem keeps_load (ps : ParameterList) (exact : Bool) (source : ByteSource) :
    Keeps (Frame.ofLaw h) (ps.load exact source) :=
  Keeps.get.bind fun _ => (Keeps.check _).bind fun _ => h.keeps_commit _

theorem keeps_importTensors (ps : ParameterList) (bytes : List UInt8) :
    Keeps (Frame.ofLaw h) (SafeTensors.load ps bytes) :=
  (Keeps.check _).bind fun _ => Keeps.get.bind fun _ => (Keeps.check _).bind fun _ =>
    (h.keeps_commit _).bind fun _ => .pure _

end Slot.Law

namespace Session

/-- A parameter that is declared has nothing stored. -/
theorem slot_declare (l : Layer) (w : Workspace Single) (i : Nat) :
    (Block.ofLayer l w).2.slot i = w.slot i ∨
      (w.slot i).content = none ∧ ((Block.ofLayer l w).2.slot i).content = none := by
  let declared : List (Slot Single) := l.declared.map fun p => Slot.declare p.1 p.2
  have hslot : (Block.ofLayer l w).2.slot i =
      (w.slots ++ declared.toArray).getD i (.declare "" .weight) := rfl
  rw [hslot, Workspace.slot, Array.getD_eq_getD_getElem?, Array.getD_eq_getD_getElem?,
    Array.getElem?_append]
  split
  · exact .inl rfl
  · rename_i hi
    have hold : w.slots[i]? = none := Array.getElem?_eq_none (by omega)
    rw [hold, List.getElem?_toArray]
    refine .inr ⟨rfl, ?_⟩
    cases hnew : declared[i - w.slots.size]? with
    | none => rfl
    | some p =>
      obtain ⟨_, -, rfl⟩ := List.mem_map.mp (List.mem_of_getElem? hnew)
      rfl

/-- The action stores nothing but what laws bear. -/
def Action.Lawful : Action → Prop
  | .declare _ | .setTrainable _ _ | .forward _ _ => False
  | _ => True

/-- Whatever comes of such an action, every parameter follows the law. -/
theorem rel_run {R : Slot Single → Slot Single → Prop} (h : Slot.Law R) {a : Action}
    (ha : a.Lawful) (w : Workspace Single) : (Frame.ofLaw h).Rel w (a.run w) := by
  cases a with
  | declare l => exact ha.elim
  | setTrainable i trainable => exact ha.elim
  | forward b ts => exact ha.elim
  | setType t => exact (Frame.ofLaw h).refl w
  | setTraining training => exact (Frame.ofLaw h).refl w
  | withInitializer i initializer => exact h.rel_modifySlot (h.withInitializer _ initializer)
  | resolve b fallback inputs => exact h.keeps_resolve b fallback inputs w
  | setArray i t a => exact h.keeps_storeOne ⟨i, t, a⟩ w
  | requantize i => exact h.rel_modifySlot (h.requantize _)
  | load ps exact source => exact h.keeps_load ps exact source w
  | importTensors ps bytes => exact h.keeps_importTensors ps bytes w
  | leaf a grad => exact Keeps.leaf (F := Frame.ofLaw h) a grad w
  | loss l prediction label => exact Keeps.loss (F := Frame.ofLaw h) l prediction label w
  | backward root => exact Keeps.backward h.keeps_addGradient root w
  | addGradient t g => exact h.keeps_addGradient t g w
  | dropGradient t => exact h.keeps_dropGradient t w
  | step o => exact h.rel_advanceAll o.settings (o.steps + 1) o.tracked w

end Session

end NeuralNet
