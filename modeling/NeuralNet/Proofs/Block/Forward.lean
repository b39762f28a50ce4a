import NeuralNet.Proofs.Block.Resolve
import NeuralNet.Proofs.Layer.Inference

/-!
# Blocks whose parameters are resolved

Resolving fits the parameters of a block to the widths that its layers see. From then on the layers
of the block see inputs of these widths or fail.

* `forward_of_outputShapes`: where outputs are inferred, and the plan is the same, outputs of the
  inferred shapes are computed;
* `forward_infers_iff`: where outputs are computed they were inferred, unless a linear layer was
  given a vector on the way.
-/

namespace NeuralNet

open Run

variable {α : Type}

namespace Block

mutual

/-- Every layer has a slot for each parameter that it declares. -/
def Complete : Block → Prop
  | leaf l slots => slots.length = l.declared.length
  | sequential bs => CompleteAll bs

def CompleteAll : List Block → Prop
  | [] => True
  | b :: rest => b.Complete ∧ CompleteAll rest

end

mutual

/-- Whether all layers pass a test. -/
def all (p : Layer → Bool) : Block → Bool
  | leaf l _ => p l
  | sequential bs => allOf p bs

def allOf (p : Layer → Bool) : List Block → Bool
  | [] => true
  | b :: rest => b.all p && allOf p rest

end

variable [Scalar α]

mutual

/-- Whether all layers that are reached on the way forward pass a test with each of their inputs. -/
def always (p : Layer → DenseArray α → Bool) : Block → List Tensor → Workspace α → Bool
  | leaf l _, inputs, w => inputs.all fun t => p l (w.value t)
  | sequential bs, inputs, w => alwaysAll p bs inputs w

def alwaysAll (p : Layer → DenseArray α → Bool) : List Block → List Tensor → Workspace α → Bool
  | [], _, _ => true
  | b :: rest, inputs, w =>
    b.always p inputs w &&
      match b.forward inputs w with
      | (.ok outputs, w') => alwaysAll p rest outputs w'
      | (.error _, _) => true

end

variable {Γ Δ : Context} {w : Workspace α} {plan : List (Nat × Extents)} {shapes : List Shape}

mutual

theorem always_and {p q : Layer → DenseArray α → Bool} : (b : Block) → {ts : List Tensor} →
    {w : Workspace α} → b.always p ts w = true → b.always q ts w = true →
    b.always (fun l x => p l x && q l x) ts w = true
  | leaf l _, ts, w, hp, hq => by
    have hp := List.all_eq_true.mp hp
    have hq := List.all_eq_true.mp hq
    exact List.all_eq_true.mpr fun t ht => Bool.and_eq_true_iff.mpr ⟨hp t ht, hq t ht⟩
  | sequential bs, ts, w, hp, hq => alwaysAll_and bs hp hq

theorem alwaysAll_and {p q : Layer → DenseArray α → Bool} : (bs : List Block) →
    {ts : List Tensor} → {w : Workspace α} → alwaysAll p bs ts w = true →
    alwaysAll q bs ts w = true → alwaysAll (fun l x => p l x && q l x) bs ts w = true
  | [], _, _, _, _ => rfl
  | b :: bs, ts, w, hp, hq => by
    unfold alwaysAll at hp hq ⊢
    obtain ⟨hp₁, hp₂⟩ := Bool.and_eq_true_iff.mp hp
    obtain ⟨hq₁, hq₂⟩ := Bool.and_eq_true_iff.mp hq
    refine Bool.and_eq_true_iff.mpr ⟨always_and b hp₁ hq₁, ?_⟩
    match hrun : b.forward ts w with
    | (.error e, _) => rfl
    | (.ok outputs, w') =>
      rw [hrun] at hp₂ hq₂
      exact alwaysAll_and bs hp₂ hq₂

end

/-- The shapes of the arrays in a context. -/
def shapesOf (Δ : Context) : List Shape := Δ.map fun p => Shape.ofExtents p.2

theorem shapesOf_eq {ss : List Extents} {ts : List Tensor} (h : Listed ss ts Δ) :
    shapesOf Δ = ss.map Shape.ofExtents := by
  rw [← h.2, List.map_map]
  rfl

theorem shapesOf_singleton {l : Layer} (h : l.outputShapes (shapesOf Δ) = .ok shapes) :
    ∃ p, Δ = [p] := by
  obtain ⟨s, hs⟩ := l.singleton_of_outputShapes h
  obtain ⟨p, hp, -⟩ := List.map_eq_singleton_iff.mp hs
  exact ⟨p, hp⟩

/-! ## Shapes that are inferred -/

mutual

theorem forward_gives : (b : Block) → {Γ Δ : Context} → {w : Workspace α} →
    {plan : List (Nat × Extents)} → {shapes : List Shape} → b.Complete → b.all Layer.sized = true →
    b.plan (shapesOf Δ) = .ok plan → (∀ p ∈ plan, (.weight p.1, p.2) ∈ Γ) → w.Models Γ → Δ ⊆ Γ →
    (∀ p ∈ Δ, ∀ n ∈ p.2, n ≠ 0) → b.outputShapes (shapesOf Δ) = .ok shapes →
    b.always (fun l x => l.findsRows x && l.hasRoom x) (Δ.map (·.1)) w = true →
    ∃ outs, shapes = outs.map Shape.ofExtents ∧ (∀ s ∈ outs, ∀ n ∈ s, n ≠ 0) ∧
      Given Γ (Listed outs) (b.forward (Δ.map (·.1)) w).1 (b.forward (Δ.map (·.1)) w).2
  | leaf l slots, Γ, Δ, w, plan, shapes, hcomplete, hsized, hplan, hslots, hw, hΔ, hpos, hshapes,
      halways => by
    obtain ⟨k, hk, rfl⟩ := width_of_plan hcomplete hplan
    obtain ⟨⟨t, s⟩, rfl⟩ := shapesOf_singleton hshapes
    have ht : (t, s) ∈ Γ := hΔ List.mem_cons_self
    obtain rfl : (w.value t).extents = s := Workspace.extents_value (hw _ ht)
    have hfed := List.all_eq_true.mp halways t List.mem_cons_self
    obtain ⟨hrows, hroom⟩ := Bool.and_eq_true_iff.mp hfed
    obtain ⟨outs, hmakes, hshapes, houts⟩ := Layer.makes_of_outputShapes hshapes hk
      (hpos _ List.mem_cons_self) hsized hrows hroom
    exact ⟨outs, hshapes, houts, Layer.forward_gives hcomplete hslots hw ht hmakes⟩
  | sequential bs, Γ, Δ, w, plan, shapes, hcomplete, hsized, hplan, hslots, hw, hΔ, hpos, hshapes,
      halways =>
    forwardAll_gives bs hcomplete hsized hplan hslots hw hΔ hpos hshapes halways

theorem forwardAll_gives : (bs : List Block) → {Γ Δ : Context} → {w : Workspace α} →
    {plan : List (Nat × Extents)} → {shapes : List Shape} → CompleteAll bs →
    allOf Layer.sized bs = true → (sequential bs).plan (shapesOf Δ) = .ok plan →
    (∀ p ∈ plan, (.weight p.1, p.2) ∈ Γ) → w.Models Γ → Δ ⊆ Γ →
    (∀ p ∈ Δ, ∀ n ∈ p.2, n ≠ 0) → outputShapesAll bs (shapesOf Δ) = .ok shapes →
    alwaysAll (fun l x => l.findsRows x && l.hasRoom x) bs (Δ.map (·.1)) w = true →
    ∃ outs, shapes = outs.map Shape.ofExtents ∧ (∀ s ∈ outs, ∀ n ∈ s, n ≠ 0) ∧
      Given Γ (Listed outs) (forwardAll bs (Δ.map (·.1)) w).1 (forwardAll bs (Δ.map (·.1)) w).2
  | [], Γ, Δ, w, plan, shapes, hcomplete, hsized, hplan, hslots, hw, hΔ, hpos, hshapes,
      halways => by
    cases hshapes
    refine ⟨Δ.map (·.2), shapesOf_eq ⟨rfl, rfl⟩, List.forall_mem_map.mpr hpos, ?_⟩
    exact Gives.listed Δ (List.append_subset.mpr ⟨hΔ, List.Subset.refl _⟩) w hw
  | b :: bs, Γ, Δ, w, plan, shapes, hcomplete, hsized, hplan, hslots, hw, hΔ, hpos, hshapes,
      halways => by
    obtain ⟨middle, first, rest, hmiddle, hfirst, hrest, rfl⟩ := plan_cons.mp hplan
    obtain ⟨middle', hmiddle', hshapes⟩ := bind_eq_ok_iff.mp hshapes
    cases hmiddle.symm.trans hmiddle'
    obtain ⟨hslots₁, hslots₂⟩ := List.forall_mem_append.mp hslots
    obtain ⟨hsized₁, hsized₂⟩ := Bool.and_eq_true_iff.mp hsized
    obtain ⟨halways₁, halways₂⟩ := Bool.and_eq_true_iff.mp halways
    obtain ⟨outs, rfl, houts, ts, Δ₁, hok, hlisted, hmodels⟩ :=
      forward_gives b hcomplete.1 hsized₁ hfirst hslots₁ hw hΔ hpos hmiddle halways₁
    have hrun : b.forward (Δ.map (·.1)) w = (.ok ts, (b.forward (Δ.map (·.1)) w).2) :=
      Prod.ext hok rfl
    generalize (b.forward (Δ.map (·.1)) w).2 = w₁ at hrun hmodels
    rw [hrun] at halways₂
    rw [← shapesOf_eq hlisted] at hrest hshapes
    obtain ⟨rfl, rfl⟩ := hlisted
    -- the others run in the context with the outputs of the first
    obtain ⟨outs', hshapes, houts', hgiven⟩ := forwardAll_gives bs hcomplete.2 hsized₂ hrest
      (fun p hp => List.mem_append_right _ (hslots₂ p hp)) hmodels (List.subset_append_left _ _)
      (List.forall_mem_map.mp houts) hshapes halways₂
    refine ⟨outs', hshapes, houts', ?_⟩
    unfold forwardAll
    rw [bind_of_ok hrun]
    exact hgiven.forget (List.subset_append_right _ _)

end

/-! ## Shapes that are made -/

omit [Scalar α] in
theorem always_singleton (p : Layer → DenseArray α → Bool) (l : Layer) (t : Tensor)
    (w : Workspace α) : [t].all (fun t => p l (w.value t)) = p l (w.value t) := by
  rw [List.all_cons, List.all_nil, Bool.and_true]

/-- Layers take one input. -/
theorem singleton_of_forward {l : Layer} {slots : List Nat} {ts : List Tensor}
    (h : (l.forward slots (Δ.map (·.1)) w).1 = .ok ts) : ∃ p, Δ = [p] := by
  match Δ with
  | [p] => exact ⟨p, rfl⟩
  | [] => cases h
  | p :: q :: rest => cases h

mutual

theorem forward_infers : (b : Block) → {Γ Δ : Context} → {w : Workspace α} →
    {inputs : List Shape} → {plan : List (Nat × Extents)} → {ts : List Tensor} → b.Complete →
    b.plan inputs = .ok plan → (∀ p ∈ plan, (.weight p.1, p.2) ∈ Γ) → w.Models Γ → Δ ⊆ Γ →
    (b.forward (Δ.map (·.1)) w).1 = .ok ts →
    ∃ outs, Given Γ (Listed outs) (b.forward (Δ.map (·.1)) w).1 (b.forward (Δ.map (·.1)) w).2 ∧
      (b.always Layer.infersFor (Δ.map (·.1)) w = true →
        b.outputShapes (shapesOf Δ) = .ok (outs.map Shape.ofExtents)) ∧
      (b.always Layer.infersFor (Δ.map (·.1)) w = false →
        ∀ shapes, b.outputShapes (shapesOf Δ) ≠ .ok shapes)
  | leaf l slots, Γ, Δ, w, inputs, plan, ts, hcomplete, hplan, hslots, hw, hΔ, hok => by
    obtain ⟨k, hk, rfl⟩ := width_of_plan hcomplete hplan
    obtain ⟨⟨t, s⟩, rfl⟩ := singleton_of_forward hok
    have ht : (t, s) ∈ Γ := hΔ List.mem_cons_self
    obtain rfl : (w.value t).extents = s := Workspace.extents_value (hw _ ht)
    have hmakes : ∃ outs, l.Makes k w.training (w.value t) outs := by
      by_contra hnone
      obtain ⟨e, he⟩ := Layer.forward_fails hcomplete hslots hw ht (not_exists.mp hnone)
      cases hok.symm.trans he
    obtain ⟨outs, hmakes⟩ := hmakes
    refine ⟨outs, Layer.forward_gives hcomplete hslots hw ht hmakes, fun halways => ?_,
      fun halways => ?_⟩
    · exact hmakes.infers hk ((always_singleton _ l t w).symm.trans halways)
    · exact Layer.not_infers ((always_singleton _ l t w).symm.trans halways)
  | sequential bs, Γ, Δ, w, inputs, plan, ts, hcomplete, hplan, hslots, hw, hΔ, hok =>
    forwardAll_infers bs hcomplete hplan hslots hw hΔ hok

theorem forwardAll_infers : (bs : List Block) → {Γ Δ : Context} → {w : Workspace α} →
    {inputs : List Shape} → {plan : List (Nat × Extents)} → {ts : List Tensor} → CompleteAll bs →
    (sequential bs).plan inputs = .ok plan → (∀ p ∈ plan, (.weight p.1, p.2) ∈ Γ) → w.Models Γ →
    Δ ⊆ Γ → (forwardAll bs (Δ.map (·.1)) w).1 = .ok ts →
    ∃ outs, Given Γ (Listed outs) (forwardAll bs (Δ.map (·.1)) w).1
        (forwardAll bs (Δ.map (·.1)) w).2 ∧
      (alwaysAll Layer.infersFor bs (Δ.map (·.1)) w = true →
        outputShapesAll bs (shapesOf Δ) = .ok (outs.map Shape.ofExtents)) ∧
      (alwaysAll Layer.infersFor bs (Δ.map (·.1)) w = false →
        ∀ shapes, outputShapesAll bs (shapesOf Δ) ≠ .ok shapes)
  | [], Γ, Δ, w, inputs, plan, ts, hcomplete, hplan, hslots, hw, hΔ, hok => by
    refine ⟨Δ.map (·.2), ?_, fun _ => ?_, fun halways => absurd halways Bool.noConfusion⟩
    · exact Gives.listed Δ (List.append_subset.mpr ⟨hΔ, List.Subset.refl _⟩) w hw
    · exact congrArg Except.ok (shapesOf_eq ⟨rfl, rfl⟩)
  | b :: bs, Γ, Δ, w, inputs, plan, ts, hcomplete, hplan, hslots, hw, hΔ, hok => by
    obtain ⟨middle, first, rest, -, hfirst, hrest, rfl⟩ := plan_cons.mp hplan
    obtain ⟨hslots₁, hslots₂⟩ := List.forall_mem_append.mp hslots
    match hrun : b.forward (Δ.map (·.1)) w with
    | (.error e, w₁) =>
      unfold forwardAll at hok
      rw [bind_of_error hrun] at hok
      cases hok
    | (.ok ts₁, w₁) =>
      obtain ⟨outs, hgiven, hinfers, hrejects⟩ :=
        forward_infers b hcomplete.1 hfirst hslots₁ hw hΔ (congrArg Prod.fst hrun)
      rw [hrun] at hgiven
      obtain ⟨_, Δ₁, ⟨⟩, hlisted, hmodels⟩ := hgiven
      unfold forwardAll at hok ⊢
      rw [bind_of_ok hrun] at hok ⊢
      unfold alwaysAll outputShapesAll
      simp only [hrun]
      rw [← shapesOf_eq hlisted] at hinfers
      obtain ⟨rfl, rfl⟩ := hlisted
      obtain ⟨outs', hgiven', hinfers', hrejects'⟩ := forwardAll_infers bs hcomplete.2 hrest
        (fun p hp => List.mem_append_right _ (hslots₂ p hp)) hmodels (List.subset_append_left _ _)
        hok
      refine ⟨outs', hgiven'.forget (List.subset_append_right _ _), fun halways => ?_,
        fun halways shapes hshapes => ?_⟩
      · obtain ⟨halways₁, halways₂⟩ := Bool.and_eq_true_iff.mp halways
        exact bind_eq_ok_iff.mpr ⟨_, hinfers halways₁, hinfers' halways₂⟩
      · obtain ⟨middle', hmiddle', hshapes⟩ := bind_eq_ok_iff.mp hshapes
        rcases Bool.and_eq_false_iff.mp halways with halways₁ | halways₂
        · exact hrejects halways₁ middle' hmiddle'
        · cases halways₁ : b.always Layer.infersFor (Δ.map (·.1)) w with
          | false => exact hrejects halways₁ middle' hmiddle'
          | true =>
            cases (hinfers halways₁).symm.trans hmiddle'
            exact hrejects' halways₂ shapes hshapes

end

end Block

theorem Shape.accepts_ofExtents (s : Extents) : (Shape.ofExtents s).accepts s = true := by
  cases s with
  | nil => rfl
  | cons n tail => simp [accepts, rank, ofExtents]

/-! ## Blocks that were resolved -/

namespace Workspace

/-- The shapes of some arrays. -/
def shapes (w : Workspace α) (ts : List Tensor) : List Shape :=
  ts.map fun t => Shape.ofExtents (w.value t).extents

/-- What is known of some arrays. -/
def contextOf (w : Workspace α) (ts : List Tensor) : Context :=
  ts.map fun t => (t, (w.value t).extents)

variable {w : Workspace α} {ts : List Tensor}

theorem handles_contextOf (w : Workspace α) (ts : List Tensor) :
    (w.contextOf ts).map (·.1) = ts := by
  unfold contextOf
  rw [List.map_map]
  exact List.map_id ts

theorem shapesOf_contextOf (w : Workspace α) (ts : List Tensor) :
    Block.shapesOf (w.contextOf ts) = w.shapes ts := List.map_map

theorem models_contextOf (h : ∀ t ∈ ts, w.holds t = true) : w.Models (w.contextOf ts) :=
  List.forall_mem_map.mpr fun t ht => extents?_eq_some.mpr ⟨h t ht, rfl⟩

end Workspace

namespace Block

variable {b : Block} {fallback : Initializer} {inputs outputs outs : List Shape}
  {w₀ w₁ w : Workspace α} {ts : List Tensor}

variable [Scalar α]

/-- The parameters with the extents that are planned for them. -/
def planned (plan : List (Nat × Extents)) : Context := plan.map fun p => (.weight p.1, p.2)

/-- As long as the parameters of a resolved block keep their extents these are the planned ones. -/
theorem models_of_resolve (hvalid : ∀ i ∈ b.slots, i < w₀.slots.size)
    (hresolve : b.resolve fallback inputs w₀ = (.ok outputs, w₁))
    (hkept : ∀ i ∈ b.slots, (w.slot i).extents = (w₁.slot i).extents) :
    ∃ plan, b.plan inputs = .ok plan ∧ w.Models (planned plan) := by
  by_cases hplans : ∃ plan, Plans b inputs w₀ plan
  · obtain ⟨plan, hplan⟩ := hplans
    obtain ⟨-, hhas⟩ := hplan.resolve_ok hvalid hresolve
    refine ⟨plan, hplan.plan_eq, List.forall_mem_map.mpr fun p hp => ?_⟩
    have hslot : p.1 ∈ b.slots := plan_slots b hplan.plan_eq ▸ List.mem_map_of_mem hp
    obtain ⟨c, hc, hextents, -⟩ := hhas p hp
    rw [Workspace.extents?, hkept p.1 hslot, Slot.extents, hc]
    exact congrArg some hextents
  · obtain ⟨e, herror⟩ := resolve_of_not_plans fallback (not_exists.mp hplans)
    cases hresolve.symm.trans herror

/-- The shapes match what the handles hold. -/
def Matches (w : Workspace α) (ts : List Tensor) (outs : List Shape) : Prop :=
  List.Forall₂ (fun t s => w.holds t = true ∧ s.accepts (w.value t).extents = true) ts outs

omit [Scalar α] in
theorem matches_of_listed {Γ Δ : Context} {ss : List Extents} (h : Listed ss ts Δ)
    (hw : w.Models (Δ ++ Γ)) : Matches w ts (ss.map Shape.ofExtents) := by
  obtain ⟨rfl, rfl⟩ := h
  unfold Matches
  rw [List.map_map, List.forall₂_map_left_iff, List.forall₂_map_right_iff, List.forall₂_same]
  intro p hp
  obtain ⟨hholds, hextents⟩ := Workspace.extents?_eq_some.mp (hw p (List.mem_append_left _ hp))
  exact ⟨hholds, hextents ▸ Shape.accepts_ofExtents _⟩

/-- What a resolved block computes was inferred just if no linear layer was given a vector. -/
theorem forward_infers_iff {ts' : List Tensor} {w' : Workspace α} (hcomplete : b.Complete)
    (hvalid : ∀ i ∈ b.slots, i < w₀.slots.size)
    (hresolve : b.resolve fallback inputs w₀ = (.ok outputs, w₁))
    (hkept : ∀ i ∈ b.slots, (w.slot i).extents = (w₁.slot i).extents)
    (hheld : ∀ t ∈ ts, w.holds t = true) (hrun : b.forward ts w = (.ok ts', w')) :
    (∃ outs, b.outputShapes (w.shapes ts) = .ok outs ∧ Matches w' ts' outs) ↔
      b.always Layer.infersFor ts w = true := by
  obtain ⟨plan, hplanned, hweights⟩ := models_of_resolve hvalid hresolve hkept
  have hw := Workspace.models_append.mpr ⟨Workspace.models_contextOf hheld, hweights⟩
  have hhandles := w.handles_contextOf ts
  have hok : (b.forward ((w.contextOf ts).map (·.1)) w).1 = .ok ts' := by
    rw [hhandles, hrun]
  obtain ⟨ss, hgiven, hinfers, hrejects⟩ := forward_infers b hcomplete hplanned
    (fun p hp => List.mem_append_right _ (List.mem_map_of_mem hp)) hw
    (List.subset_append_left _ _) hok
  rw [hhandles, hrun] at hgiven
  rw [hhandles, w.shapesOf_contextOf] at hinfers hrejects
  obtain ⟨_, Δ, ⟨⟩, hlisted, hmodels⟩ := hgiven
  constructor
  · rintro ⟨outs, houts, -⟩
    by_contra halways
    exact hrejects (Bool.not_eq_true _ ▸ halways) outs houts
  · exact fun halways => ⟨_, hinfers halways, matches_of_listed hlisted hmodels⟩

theorem forward_infers_iff_flattened :
    let b : Block := sequential [leaf .flatten [], leaf (.linear 2 false) [0]]
    let w₀ : Workspace Single := { Workspace.seeded 0 with slots := #[.declare "weight" .weight] }
    let w₁ := (b.resolve .ones [Shape.ofExtents [1, 2, 2]] w₀).2
    let x : DenseArray Single := .ones [3, 1, 4]
    let w := { w₁ with nodes := #[⟨x, none, false, none⟩] }
    ∃ ts' w' outs, b.forward [.node 0] w = (.ok ts', w') ∧
      b.outputShapes (w.shapes [.node 0]) = .ok outs ∧ Matches w' ts' outs := by
  intro b w₀ w₁ x w
  have hcomplete : b.Complete := ⟨rfl, rfl, trivial⟩
  have hvalid : ∀ i ∈ b.slots, i < w₀.slots.size := by decide +kernel
  have hok : (b.resolve .ones [Shape.ofExtents [1, 2, 2]] w₀).1 =
      .ok [Shape.ofExtents [1, 2]] := by decide +kernel
  have hkept : ∀ i ∈ b.slots, (w.slot i).extents = (w₁.slot i).extents := fun _ _ => rfl
  have hheld : ∀ t ∈ [Tensor.node 0], w.holds t = true := by decide +kernel
  have hmade : (b.forward [.node 0] w).1 = .ok [.node 2] := by decide +kernel
  have hrun := Prod.fst_eq_iff.mp hmade
  have halways : b.always Layer.infersFor [.node 0] w = true := by decide +kernel
  have hinfers := forward_infers_iff hcomplete hvalid (Prod.fst_eq_iff.mp hok) hkept hheld
    hrun
  obtain ⟨outs, houts, hmatches⟩ := hinfers.mpr halways
  exact ⟨_, _, outs, hrun, houts, hmatches⟩

/-- A linear layer computes with a vector, for which it infers nothing. -/
theorem forward_infers_iff_vector :
    let b : Block := leaf (.linear 2 true) [0, 1]
    let w₀ : Workspace Single :=
      { Workspace.seeded 0 with slots := #[.declare "weight" .weight, .declare "bias" .bias] }
    let resolved := b.resolve .ones [Shape.ofExtents [1, 3]] w₀
    let x : DenseArray Single := .ones [3]
    let w := { resolved.2 with nodes := #[⟨x, none, false, none⟩] }
    let result := b.forward [.node 0] w
    resolved.1 = .ok [Shape.ofExtents [1, 2]] ∧
      result.1 = .ok [.node 2] ∧ (result.2.value (.node 2)).extents = [2] ∧
      b.outputShapes (w.shapes [.node 0]) =
        .error (.shapeMismatch "linear input" (.words "(batch, ..., in)") (.words "(3)")) := by
  decide +kernel

end Block

end NeuralNet
