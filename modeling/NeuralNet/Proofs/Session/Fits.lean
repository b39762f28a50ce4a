import NeuralNet.Proofs.DataType.Quantize
import NeuralNet.Proofs.Session.Law

/-!
# Stored values fit their type

Whoever stores values in a parameter rounds them to its type, so that what is saved is what is in
memory. Normalizing in training does not: it leaves the running statistics as they were computed.

* `fits_of_run`: what an action leaves of this;
* `fits_of_runAll`: what a session leaves of it.
-/

namespace NeuralNet

/-! ## Parameters -/

namespace Slot

variable {p p' : Slot Single}

/-- Rounding to the type leaves all values, numbers as equal numbers and NaN as NaN. -/
def Fits (p : Slot Single) : Prop :=
  ∀ c, p.content = some c → ∀ a ∈ c.data.toList, (c.type.quantize a).Agrees a

theorem fits_of_unresolved (h : p.content = none) : p.Fits := by
  intro c hc
  cases h.symm.trans hc

/-- Only the type and the values count. -/
theorem Fits.of_values (h : p.Fits)
    (hp : ∀ c', p'.content = some c' →
      ∃ c, p.content = some c ∧ c'.type = c.type ∧ c'.data = c.data) : p'.Fits := by
  intro c' hc'
  obtain ⟨c, hc, htype, hdata⟩ := hp c' hc'
  rw [htype, hdata]
  exact h c hc

theorem fits_quantized {c : Content Single} (h : p.content = some c) {type : DataType}
    {a : DenseArray Single} (htype : c.type = type) (hdata : c.data = Content.quantized type a) :
    p.Fits := by
  intro c' hc'
  cases h.symm.trans hc'
  subst htype
  rw [hdata]
  intro v hv
  have hlist : (Content.quantized c.type a).toList = a.toList.map c.type.quantize :=
    Array.toList_map
  rw [hlist] at hv
  obtain ⟨u, -, rfl⟩ := List.mem_map.mp hv
  exact c.type.quantize_quantize u

theorem fits_requantize (p : Slot Single) : p.requantize.Fits := by
  cases hp : p.content with
  | none => exact fits_of_unresolved (by rw [requantize, hp]; rfl)
  | some c => exact fits_quantized (by rw [requantize, hp]; rfl) rfl rfl

theorem Fits.setTrainable (h : p.Fits) (trainable : Bool) : (p.setTrainable trainable).Fits := by
  refine h.of_values fun c' hc' => ?_
  obtain ⟨c, hc, rfl⟩ := Option.map_eq_some_iff.mp hc'
  refine ⟨c, hc, ?_⟩
  cases trainable <;> exact ⟨rfl, rfl⟩

theorem Fits.withInitializer (h : p.Fits) (i : Initializer) : (p.withInitializer i).Fits := by
  unfold Slot.withInitializer
  split
  · exact h
  · exact h.of_values fun c hc => ⟨c, hc, rfl, rfl⟩

theorem fits_setArray {type : DataType} {a : DenseArray Single}
    (h : p.setArray type a = .ok p') : p'.Fits := by
  obtain ⟨-, rfl⟩ := setArray_ok h
  exact fits_quantized rfl rfl rfl

theorem Fits.resolve {fallback : Initializer} {s : Extents} {type : DataType}
    {source source' : RandomSource} (hp : p.Fits)
    (h : p.resolve fallback s type source = .ok (p', source')) : p'.Fits := by
  obtain ⟨resolved, -, h⟩ := bind_eq_ok_iff.mp h
  cases resolved with
  | true =>
    cases h
    exact hp
  | false =>
    obtain ⟨⟨data, source''⟩, -, h⟩ := bind_eq_ok_iff.mp h
    cases h
    exact fits_quantized rfl rfl rfl

end Slot

/-- Whoever stores values in a parameter rounds them. -/
theorem Slot.fits_law : Slot.Law fun p p' => p.Fits → p'.Fits where
  refl _ := id
  trans h k := k ∘ h
  withInitializer _ i hp := hp.withInitializer i
  setArray h _ := Slot.fits_setArray h
  resolve h hp := hp.resolve h
  requantize p _ := p.fits_requantize
  advance h hp := by
    rcases Optimizer.advance_cases h with ⟨-, rfl⟩ | ⟨_, _, -, -, -, rfl⟩
    · exact hp
    · exact Slot.fits_requantize _
  dropGradient p hp := by
    refine hp.of_values fun c' hc' => ?_
    obtain ⟨c, hc, rfl⟩ := Option.map_eq_some_iff.mp hc'
    exact ⟨c, hc, rfl, rfl⟩
  addGradient hc _ _ hp := by
    refine hp.of_values fun c' hc' => ?_
    cases hc'
    exact ⟨_, hc, rfl, rfl⟩

/-! ## Sessions -/

namespace Session

variable {a : Action} {w : Workspace Single}

/-- The parameters that an action leaves with values as they were computed. -/
def Action.moves : Action → Workspace Single → List Nat
  | .forward b _, w => if w.training then b.statistics else []
  | _, _ => []

/-- Whatever an action does, parameters that fit go on to fit, except for the running statistics of
a block that goes forward in training. -/
theorem fits_of_run {i : Nat} (hi : i ∉ a.moves w) (hfits : (w.slot i).Fits) :
    ((a.run w).slot i).Fits := by
  cases a with
  | forward b ts =>
    have hmoved : w.training = true → i ∉ b.statistics := by
      intro htraining
      simpa [Action.moves, htraining] using hi
    rw [Action.run, b.slot_forward ts w hmoved]
    exact hfits
  | declare l =>
    rcases slot_declare l w i with hsame | hnew
    · exact hsame ▸ hfits
    · exact Slot.fits_of_unresolved hnew.2
  | setTrainable j trainable =>
    rcases w.slot_modifySlot_cases i j (·.setTrainable trainable) with hsame | ⟨-, hslot⟩
    · exact hsame ▸ hfits
    · exact hslot ▸ hfits.setTrainable trainable
  | _ =>
    refine rel_run Slot.fits_law ?_ w i hfits
    trivial

/-- The parameters that a session leaves with values as they were computed. -/
def moved : List Action → Workspace Single → List Nat
  | [], _ => []
  | a :: rest, w => a.moves w ++ moved rest (a.run w)

/-- From a workspace where all parameters fit, a session leaves all fitting but those it moved. -/
theorem fits_of_not_moved {actions : List Action} {i : Nat} (hfits : (w.slot i).Fits)
    (hi : i ∉ moved actions w) : ((runAll actions w).slot i).Fits := by
  induction actions generalizing w with
  | nil => exact hfits
  | cons a rest ih =>
    obtain ⟨hfirst, hrest⟩ := not_or.mp (mt List.mem_append.mpr hi)
    exact ih (fits_of_run hfirst hfits) hrest

/-- In every session each parameter fits, if it is not one of the running statistics that a block
moved going forward in training. These fit if their type is one to which nothing is rounded. -/
theorem fits_of_runAll (actions : List Action) (seed i : Nat)
    (h : i ∈ moved actions (.seeded seed) → ∀ c,
      ((runAll actions (.seeded seed)).slot i).content = some c →
        c.type = .float32 ∨ c.type = .float64) :
    ((runAll actions (.seeded seed)).slot i).Fits := by
  by_cases hi : i ∈ moved actions (.seeded seed)
  · intro c hc a _
    have hsame : c.type.quantize a = a := by
      rcases h hi c hc with htype | htype <;> rw [htype] <;> rfl
    rw [hsame]
    exact Single.agrees_of_same (.refl _)
  · exact fits_of_not_moved (Slot.fits_of_unresolved rfl) hi

/-- A normalization of bytes goes forward once in training. Its scales are rounded when they are
stepped. -/
theorem fits_of_runAll_scale :
    let half : Single := ⟨0x3f000000⟩
    let l : Layer := .batchNorm Layer.defaultAxis Layer.defaultEpsilon half
    let actions : List Action := [.declare l, .setType .uint8,
      .resolve (.leaf l [0, 1, 2, 3]) .ones [.ofExtents [2, 1]], .setTraining true,
      .leaf ⟨[2, 1], #[.ofNat 1, .ofNat 2], rfl⟩ false, .forward (.leaf l [0, 1, 2, 3]) [.node 0],
      .addGradient (.weight 0) ⟨[1], #[half], rfl⟩, .step ⟨.sgd .one .zero, 0, [⟨0, none, none⟩]⟩]
    let w := runAll actions (.seeded 0)
    moved actions (.seeded 0) = [2, 3] ∧ (w.slot 0).Fits := by
  intro half l actions w
  have hmoved : moved actions (.seeded 0) = [2, 3] := by decide +kernel
  refine ⟨hmoved, fits_of_runAll actions 0 0 fun h => ?_⟩
  rw [hmoved] at h
  exact absurd h (by decide)

/-- The mean 0 moves halfway to the mean 1.5 of the batch, and 0.75 is no byte. -/
theorem fits_of_runAll_mean :
    let half : Single := ⟨0x3f000000⟩
    let l : Layer := .batchNorm Layer.defaultAxis Layer.defaultEpsilon half
    let actions : List Action := [.declare l, .setType .uint8,
      .resolve (.leaf l [0, 1, 2, 3]) .ones [.ofExtents [2, 1]], .setTraining true,
      .leaf ⟨[2, 1], #[.ofNat 1, .ofNat 2], rfl⟩ false, .forward (.leaf l [0, 1, 2, 3]) [.node 0]]
    let p := (runAll actions (.seeded 0)).slot 2
    p.content = some ⟨.uint8, ⟨[1], #[⟨0x3f400000⟩], rfl⟩, none, false⟩ ∧ ¬p.Fits := by
  intro half l actions p
  have hcontent : p.content = some ⟨.uint8, ⟨[1], #[⟨0x3f400000⟩], rfl⟩, none, false⟩ := by decide +kernel
  refine ⟨hcontent, fun hfits => ?_⟩
  have hagrees : (DataType.quantize .uint8 (⟨0x3f400000⟩ : Single)).Agrees ⟨0x3f400000⟩ :=
    hfits _ hcontent _ List.mem_cons_self
  revert hagrees
  unfold Single.Agrees
  decide +kernel

end Session

end NeuralNet
