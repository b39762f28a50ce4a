import NeuralNet.Proofs.Block.Resolve
import NeuralNet.Proofs.Session.Law

/-!
# The life of a parameter

A parameter is resolved once. From then on its extents and its type stay, whatever happens to it and
whatever fails. Whether it is trainable is kept in two places: it says so itself, from its declaration
on, and its array knows whether to collect a gradient. The two agree from the moment there is an
array. A gradient is one of the extents of the array, and a frozen parameter has none.

* `Slot.life_law`: what storing leaves of this;
* `lives_run`: what happens to a parameter in one event;
* `lifecycle`: what holds in every session.
-/

namespace NeuralNet

open Run

variable {α : Type}

/-- The array collects a gradient just if the parameter is trainable, and it has no gradient but one
of its own extents, and only then. -/
structure Content.Sound (c : Content α) (trainable : Bool) : Prop where
  collects : c.requiresGrad = trainable
  grad : ∀ g, c.grad = some g → g.extents = c.data.extents ∧ trainable = true

namespace Slot

variable {p p' : Slot α}

/-- There is no content, or it is sound. -/
def Sound (p : Slot α) : Prop := ∀ c, p.content = some c → c.Sound p.trainable

/-- What is resolved stays so, with its extents and its type, and gradients stay sound. -/
structure Lives (p p' : Slot α) : Prop where
  extents : ∀ s, p.extents = some s → p'.extents = some s
  type : ∀ t, p.type = some t → p'.type = some t
  sound : p.Sound → p'.Sound

theorem Lives.refl (p : Slot α) : p.Lives p := ⟨fun _ => id, fun _ => id, id⟩

theorem Lives.trans {p'' : Slot α} (h : p.Lives p') (h' : p'.Lives p'') : p.Lives p'' :=
  ⟨fun s hs => h'.extents s (h.extents s hs), fun t ht => h'.type t (h.type t ht), h'.sound ∘ h.sound⟩

theorem isResolved_iff : p.isResolved = true ↔ ∃ s, p.extents = some s := by
  unfold Slot.isResolved Slot.extents
  cases p.content <;> simp

theorem Lives.isResolved (h : p.Lives p') (hp : p.isResolved = true) : p'.isResolved = true := by
  obtain ⟨s, hs⟩ := isResolved_iff.mp hp
  exact isResolved_iff.mpr ⟨s, h.extents s hs⟩

/-- New content of an unresolved parameter, or in place of content of its extents and type. -/
theorem lives_of_content {c' : Content α} (hp' : p'.content = some c')
    (hold : ∀ c, p.content = some c → c'.data.extents = c.data.extents ∧ c'.type = c.type)
    (hsound : p.Sound → c'.Sound p'.trainable) : p.Lives p' := by
  refine ⟨?_, ?_, ?_⟩
  · intro s hs
    obtain ⟨c, hc, rfl⟩ := Option.map_eq_some_iff.mp hs
    rw [Slot.extents, hp', Option.map_some, (hold c hc).1]
  · intro t ht
    obtain ⟨c, hc, rfl⟩ := Option.map_eq_some_iff.mp ht
    rw [Slot.type, hp', Option.map_some, (hold c hc).2]
  · intro hp d hd
    cases hp'.symm.trans hd
    exact hsound hp

/-- There is still no content. -/
theorem lives_of_unresolved (hp : p.content = none) (hp' : p'.content = none) : p.Lives p' := by
  refine ⟨?_, ?_, ?_⟩
  · intro s hs
    rw [Slot.extents, hp] at hs
    cases hs
  · intro t ht
    rw [Slot.type, hp] at ht
    cases ht
  · intro _ c hc
    cases hp'.symm.trans hc

/-- A change of the content that keeps its extents and its type. -/
theorem lives_map {f : Content α → Content α}
    (hcontent : p'.content = p.content.map f)
    (hdata : ∀ c, p.content = some c → (f c).data.extents = c.data.extents ∧ (f c).type = c.type)
    (hsound : ∀ c, p.content = some c → c.Sound p.trainable → (f c).Sound p'.trainable) :
    p.Lives p' := by
  cases hp : p.content with
  | none => exact lives_of_unresolved hp (by rw [hcontent, hp]; rfl)
  | some c =>
    have hp' : p'.content = some (f c) := by rw [hcontent, hp]; rfl
    refine lives_of_content hp' (fun d hd => ?_) fun h => hsound c hp (h c hp)
    cases hp.symm.trans hd
    exact hdata c hp

theorem lives_withInitializer (p : Slot α) (i : Initializer) :
    p.Lives (p.withInitializer i) := by
  unfold withInitializer
  split
  · exact .refl p
  · exact ⟨fun _ => id, fun _ => id, id⟩

/-- Values in place of others of the same extents; the gradient stays. -/
theorem lives_setData {c : Content α} {a : DenseArray α} (hc : p.content = some c)
    (ha : a.extents = c.data.extents) :
    p.Lives { p with content := some { c with data := a } } := by
  refine lives_of_content rfl (fun d hd => ?_) fun hsound => ?_
  · cases hc.symm.trans hd
    exact ⟨ha, rfl⟩
  · obtain ⟨hcollects, hgrad⟩ := hsound c hc
    exact ⟨hcollects, fun g hg => ⟨(hgrad g hg).1.trans ha.symm, (hgrad g hg).2⟩⟩

/-- Freezing and freeing is told to the array. -/
theorem lives_setTrainable (p : Slot α) (trainable : Bool) :
    p.Lives (p.setTrainable trainable) := by
  refine lives_map rfl (fun _ _ => ⟨rfl, rfl⟩) fun c _ hsound => ⟨rfl, fun g hg => ?_⟩
  cases trainable with
  | true => exact ⟨(hsound.grad g hg).1, rfl⟩
  | false => cases hg

variable [Scalar α]

theorem lives_requantize (p : Slot α) : p.Lives p.requantize :=
  lives_map rfl (fun _ _ => ⟨rfl, rfl⟩) fun _ _ hsound => ⟨hsound.collects, hsound.grad⟩

/-- A new array is told what the parameter is; one that is there stays with what it was told. -/
theorem lives_setArray {type : DataType} {a : DenseArray α}
    (h : p.setArray type a = .ok p') : p.Lives p' := by
  obtain ⟨haccepts, rfl⟩ := setArray_ok h
  refine lives_of_content rfl (fun c hc => ?_) fun hsound => ⟨?_, fun g hg => nomatch hg⟩
  · obtain ⟨hextents, htype⟩ := accepts_iff.mp haccepts c hc
    exact ⟨hextents.symm, htype.symm⟩
  · change p.collects = p.trainable
    unfold collects
    cases hc : p.content with
    | none => rfl
    | some c => exact (hsound c hc).collects

theorem lives_resolve {fallback : Initializer} {s : Extents} {type : DataType}
    {source source' : RandomSource}
    (h : p.resolve fallback s type source = .ok (p', source')) : p.Lives p' := by
  obtain ⟨resolved, hcheck, h⟩ := bind_eq_ok_iff.mp h
  have hresolved : resolved = p.isResolved :=
    Except.ok.inj (hcheck.symm.trans (checkCompatible_of_accepts ⟨resolved, hcheck⟩))
  cases resolved with
  | true =>
    cases h
    exact .refl p
  | false =>
    obtain ⟨⟨data, source''⟩, -, h⟩ := bind_eq_ok_iff.mp h
    cases h
    refine lives_of_content rfl (fun c hc => ?_) fun _ => ⟨rfl, fun g hg => nomatch hg⟩
    rw [isResolved, hc] at hresolved
    cases hresolved

end Slot

variable [Scalar α]

namespace Optimizer

theorem extents_update (settings : OptimizerSettings) (steps : Nat) (t : Tracked α)
    (data g : DenseArray α) : (update settings steps t data g).2.extents = data.extents := by
  cases settings with
  | sgd rate momentum =>
    unfold update
    dsimp only
    split <;> rfl
  | adam => rfl

theorem lives_advance {settings : OptimizerSettings} {steps : Nat} {t t' : Tracked α}
    {p p' : Slot α} (h : advance settings steps t p = .ok (t', p')) : p.Lives p' := by
  rcases advance_cases h with ⟨-, rfl⟩ | ⟨c, g, hc, -, -, rfl⟩
  · exact .refl _
  · exact (Slot.lives_setData hc (extents_update ..)).trans (Slot.lives_requantize _)

end Optimizer

/-- Whatever is stored in a parameter, its life goes on. -/
theorem Slot.life_law : Slot.Law (Slot.Lives (α := α)) where
  refl := .refl
  trans := .trans
  withInitializer := lives_withInitializer
  setArray := lives_setArray
  resolve := lives_resolve
  requantize := lives_requantize
  advance := Optimizer.lives_advance
  dropGradient p :=
    lives_map rfl (fun _ _ => ⟨rfl, rfl⟩) fun c _ hsound => ⟨hsound.collects, fun g hg => nomatch hg⟩
  addGradient {p c g} hc hcollects hg := by
    refine lives_of_content rfl (fun d hd => ?_) fun hsound => ?_
    · cases hc.symm.trans hd
      exact ⟨rfl, rfl⟩
    · -- only an array that collects a gradient gets one, and it does so just if it is trainable
      have hold := hsound c hc
      refine ⟨hold.collects, ?_⟩
      rintro _ ⟨⟩
      refine ⟨?_, hold.collects.symm.trans hcollects⟩
      rw [hg]
      cases hgrad : c.grad with
      | none => rfl
      | some old => exact (hold.grad old hgrad).1

namespace Session

/-- An action, or what happens to a single parameter or by an optimizer. -/
inductive Event where
  | action (a : Action)
  | resolveSlot (slot : Nat) (fallback : Initializer) (s : Extents)
  | pausedForward (b : Block) (ts : List Tensor)
  | dropGradients (o : Optimizer Single)

namespace Event

/-- The workspace after an event, whatever came of it. -/
def run : Event → Workspace Single → Workspace Single
  | action a, w => a.run w
  | resolveSlot i fallback s, w => (Block.resolveSlot fallback i s w).2
  | pausedForward b ts, w => (paused (b.forward ts) w).2
  | dropGradients o, w => (o.dropGradients w).2

end Event

/-- The workspace after all events. -/
def runEvents (events : List Event) (w : Workspace Single) : Workspace Single :=
  events.foldl (fun w e => e.run w) w

/-- How often a parameter becomes resolved. -/
def resolutions (i : Nat) : List Event → Workspace Single → Nat
  | [], _ => 0
  | e :: rest, w =>
    (if !(w.slot i).isResolved && ((e.run w).slot i).isResolved then 1 else 0) +
      resolutions i rest (e.run w)

variable {w : Workspace Single} {e : Event} {i : Nat}

/-- The event neither declares parameters nor freezes or frees them. -/
def Event.Stores : Event → Prop
  | action (.declare _) | action (.setTrainable _ _) => False
  | _ => True

theorem rel_event {R : Slot Single → Slot Single → Prop} (h : Slot.Law R)
    (hdata : ∀ {p c a}, p.content = some c → a.extents = c.data.extents →
      R p { p with content := some { c with data := a } }) (he : e.Stores) (w : Workspace Single) :
    (Frame.ofLaw h).Rel w (e.run w) := by
  cases e with
  | resolveSlot i fallback s => exact h.keeps_resolveSlot fallback i s w
  | dropGradients o => exact h.keeps_dropGradients o w
  | pausedForward b ts => exact h.keeps_forward hdata b ts { w with pauses := w.pauses + 1 }
  | action a =>
    cases a with
    | declare l => exact he.elim
    | setTrainable i trainable => exact he.elim
    | forward b ts => exact h.keeps_forward hdata b ts w
    | _ =>
      refine rel_run h ?_ w
      trivial

theorem stores_or (e : Event) : e.Stores ∨ (∃ l, e = .action (.declare l)) ∨
    ∃ i trainable, e = .action (.setTrainable i trainable) := by
  unfold Event.Stores
  split
  · exact .inr (.inl ⟨_, rfl⟩)
  · exact .inr (.inr ⟨_, _, rfl⟩)
  · exact .inl trivial

theorem run_declare (l : Layer) (w : Workspace Single) :
    (Event.action (.declare l)).run w = (Block.ofLayer l w).2 := rfl

theorem run_setTrainable (j : Nat) (trainable : Bool) (w : Workspace Single) :
    (Event.action (.setTrainable j trainable)).run w = w.modifySlot j (·.setTrainable trainable) :=
  rfl

/-- Through every event the life of every parameter goes on. -/
theorem lives_run (e : Event) (w : Workspace Single) (i : Nat) :
    (w.slot i).Lives ((e.run w).slot i) := by
  rcases stores_or e with he | ⟨l, rfl⟩ | ⟨j, trainable, rfl⟩
  · exact rel_event Slot.life_law Slot.lives_setData he w i
  · rw [run_declare]
    rcases slot_declare l w i with hsame | ⟨hold, hnew⟩
    · rw [hsame]
      exact .refl _
    · exact Slot.lives_of_unresolved hold hnew
  · rw [run_setTrainable]
    rcases w.slot_modifySlot_cases i j (·.setTrainable trainable) with hsame | ⟨-, hslot⟩
    · rw [hsame]
      exact .refl _
    · rw [hslot]
      exact (w.slot i).lives_setTrainable trainable

theorem lives_runEvents (events : List Event) (w : Workspace Single) (i : Nat) :
    (w.slot i).Lives ((runEvents events w).slot i) := by
  induction events generalizing w with
  | nil => exact .refl _
  | cons e rest ih => exact (lives_run e w i).trans (ih (e.run w))

theorem resolutions_le (events : List Event) (w : Workspace Single) (i : Nat) :
    resolutions i events w ≤ if (w.slot i).isResolved then 0 else 1 := by
  induction events generalizing w with
  | nil => exact Nat.zero_le _
  | cons e rest ih =>
    have hrest := ih (e.run w)
    unfold resolutions
    cases hw : (w.slot i).isResolved with
    | true =>
      rw [(lives_run e w i).isResolved hw] at hrest
      simpa using hrest
    | false =>
      cases hnext : ((e.run w).slot i).isResolved with
      | true =>
        rw [hnext] at hrest
        exact Nat.add_le_add_left hrest 1
      | false => simpa [hnext] using hrest

/-- In every session a parameter is resolved at most once, and its extents and its type stay from
then on. Its array wants a gradient if and only if the parameter is trainable. A gradient has the
extents of the array, and there is none if the parameter is frozen. -/
theorem lifecycle (before after : List Event) (seed i : Nat) :
    let w := runEvents before (.seeded seed)
    let w' := runEvents after w
    resolutions i (before ++ after) (.seeded seed) ≤ 1 ∧
      (∀ s, (w.slot i).extents = some s → (w'.slot i).extents = some s) ∧
      (∀ t, (w.slot i).type = some t → (w'.slot i).type = some t) ∧
      ((w'.slot i).isResolved = true → w'.requiresGrad (.weight i) = (w'.slot i).trainable) ∧
      ∀ g, w'.gradient (.weight i) = some g →
        (w'.slot i).extents = some g.extents ∧ (w'.slot i).trainable = true := by
  intro w w'
  have hrun : w' = runEvents (before ++ after) (.seeded seed) :=
    List.foldl_append.symm
  have hsteps := resolutions_le (before ++ after) (.seeded seed) i
  have hrest : (w.slot i).Lives (w'.slot i) := lives_runEvents after w i
  have hall : Slot.Lives (.declare "" .weight) (w'.slot i) :=
    hrun ▸ lives_runEvents (before ++ after) (.seeded seed) i
  have hsound : (w'.slot i).Sound := hall.sound fun c hc => by cases hc
  refine ⟨hsteps, hrest.extents, hrest.type, fun hresolved => ?_, fun g hg => ?_⟩
  · obtain ⟨c, hc⟩ := Option.isSome_iff_exists.mp hresolved
    rw [w'.requiresGrad_weight, hc]
    exact (hsound c hc).collects
  · rw [w'.gradient_weight] at hg
    obtain ⟨c, hc, hgrad⟩ := Option.bind_eq_some_iff.mp hg
    obtain ⟨hextents, htrainable⟩ := (hsound c hc).grad g hgrad
    refine ⟨?_, htrainable⟩
    rw [Slot.extents, hc, Option.map_some, hextents]

end Session

end NeuralNet
