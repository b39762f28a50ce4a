import NeuralNet.Proofs.Layer.Samples

/-!
# Blocks leave samples apart

What a block computes in evaluation for some samples, chosen in any order and any number of times,
is what it computes for all and then chosen from. Its parameters have to be those that it plans for:
added to other samples, a bias with a value for every sample would have to be chosen from too.

* `Infers.choose`: on arrays, by induction over the block;
* `infers_of_singles`: a block that computes every sample alone computes all of them together;
* `forward_chooses`: the same of a run.
-/

namespace NeuralNet

open DenseArray (Picks PicksSecond)

variable {α : Type} [Scalar α] {idx : List Nat} {n : Nat} {xs ys ys' : List (DenseArray α)}

/-! ## Samples of several arrays -/

/-- The samples at these positions. The first array has its samples on the first axis; the states of
a recurrent layer that follow have them on the second. -/
def chooseSamples (idx : List Nat) : List (DenseArray α) → List (DenseArray α)
  | [] => []
  | y :: rest => y.selectFirst idx :: rest.map (·.selectSecond idx)

/-- Arrays that all have a number of samples. -/
def HasSamples (n : Nat) : List (DenseArray α) → Prop
  | [] => False
  | y :: rest => (∃ s, y.extents = n :: s) ∧ ∀ z ∈ rest, ∃ d s, z.extents = d :: n :: s

omit [Scalar α] in
theorem hasSamples_single [Zero α] {x : DenseArray α} {s : Extents} (h : x.extents = n :: s) :
    HasSamples n [x] := ⟨⟨s, h⟩, by simp⟩

theorem Sampled.hasSamples (h : Sampled idx n ys ys') : HasSamples n ys := by
  match ys, ys', h with
  | _ :: _, _ :: _, ⟨⟨s, hpicks⟩, hrest⟩ =>
    refine ⟨⟨s, hpicks.extents⟩, fun z hz => ?_⟩
    obtain ⟨_, -, hsecond⟩ := exists_of_mem_left hrest hz
    exact hsecond.extents

theorem Sampled.eq_chooseSamples (h : Sampled idx n ys ys') : ys' = chooseSamples idx ys := by
  match ys, ys', h with
  | _ :: _, _ :: _, ⟨⟨s, hpicks⟩, hrest⟩ =>
    have hmap := map_eq_map_of_forall₂ (f := fun y => y.selectSecond idx) (g := fun y => y) hrest
      fun _ _ h => h.eq_selectSecond
    rw [List.map_id'] at hmap
    rw [chooseSamples, hpicks.eq_selectFirst, hmap]

/-! ## Room for arrays -/

/-- The extents, as far as they are known. -/
def Shape.known (s : Shape) : Extents := s.batch.toList ++ s.tail

@[simp]
theorem Shape.known_ofExtents (s : Extents) : (Shape.ofExtents s).known = s := by
  cases s <;> rfl

/-- The shapes of some arrays. -/
def shapesOfArrays (xs : List (DenseArray α)) : List Shape :=
  xs.map fun x => Shape.ofExtents x.extents

namespace Block

mutual

/-- Whether all arrays that are made on the way for inputs of these shapes can be addressed. -/
def hasRoomFor : Block → List Shape → Bool
  | leaf l _, inputs => inputs.all fun s => (l.allocates s.known).all (·.addressable)
  | sequential bs, inputs => hasRoomForAll bs inputs

def hasRoomForAll : List Block → List Shape → Bool
  | [], _ => true
  | b :: rest, inputs =>
    b.hasRoomFor inputs &&
      match b.outputShapes inputs with
      | .ok outputs => hasRoomForAll rest outputs
      | .error _ => true

end

/-! ## Fitting parameters -/

/-- The parameters have the extents that are planned for some inputs. -/
structure Fits (b : Block) (parameter : Nat → DenseArray α) : Prop where
  complete : b.Complete
  planned : ∃ inputs plan, b.plan inputs = .ok plan ∧ ∀ p ∈ plan, (parameter p.1).extents = p.2

variable {parameter : Nat → DenseArray α} {l : Layer} {slots : List Nat} {b : Block}
  {bs : List Block}

omit [Scalar α] in
theorem Fits.of_leaf (h : (leaf l slots).Fits parameter) :
    ∃ k inputs, l.inputWidth inputs = .ok k ∧ l.Fitted k slots parameter := by
  obtain ⟨hcomplete, inputs, plan, hplan, hextents⟩ := h
  obtain ⟨k, hk, rfl⟩ := width_of_plan hcomplete hplan
  exact ⟨k, inputs, hk, hextents⟩

omit [Scalar α] in
theorem Fits.of_cons (h : (sequential (b :: bs)).Fits parameter) :
    b.Fits parameter ∧ (sequential bs).Fits parameter := by
  obtain ⟨⟨hfirst, hrest⟩, inputs, plan, hplan, hextents⟩ := h
  obtain ⟨middle, first, rest, -, hplan₁, hplan₂, rfl⟩ := plan_cons.mp hplan
  obtain ⟨hextents₁, hextents₂⟩ := List.forall_mem_append.mp hextents
  exact ⟨⟨hfirst, inputs, first, hplan₁, hextents₁⟩, hrest, middle, rest, hplan₂, hextents₂⟩

/-! ## Inferred and computed -/

/-- The block computes outputs, and infers their shapes. -/
structure Infers (b : Block) (parameter : Nat → DenseArray α) (xs ys : List (DenseArray α)) :
    Prop where
  evaluate_eq : b.evaluate parameter xs = .ok ys
  outputShapes_eq : b.outputShapes (shapesOfArrays xs) = .ok (shapesOfArrays ys)

theorem Infers.of_leaf (h : (Block.leaf l slots).Infers parameter xs ys) :
    ∃ x, xs = [x] ∧ l.evaluateOn slots parameter x = .ok ys := by
  obtain ⟨hevaluate, hshapes⟩ := h
  obtain ⟨s, hs⟩ := l.singleton_of_outputShapes hshapes
  obtain ⟨x, rfl, -⟩ := List.map_eq_singleton_iff.mp hs
  exact ⟨x, rfl, hevaluate⟩

omit [Scalar α] in
theorem infersFor_of_outputShapes {x : DenseArray α} {shapes : List Shape}
    (h : l.outputShapes (shapesOfArrays [x]) = .ok shapes) : l.infersFor x = true := by
  by_contra hnot
  exact Layer.not_infers (Bool.not_eq_true _ ▸ hnot) shapes h

omit [Scalar α] in
theorem infersFor_of_rank {x y : DenseArray α} (hrank : y.rank = x.rank) :
    l.infersFor y = l.infersFor x := by
  unfold Layer.infersFor
  rw [hrank]

/-- A layer that infers what it makes infers the shapes of what it computes. -/
theorem infers_leaf {k : Nat} {inputs : List Shape} {x : DenseArray α}
    (hlen : slots.length = l.declared.length) (hk : l.inputWidth inputs = .ok k)
    (hfit : l.Fitted k slots parameter) (hinfers : l.infersFor x = true)
    (h : l.evaluateOn slots parameter x = .ok ys) :
    (Block.leaf l slots).Infers parameter [x] ys := by
  have hshapes := (Layer.makes_of_evaluateOn hlen hfit h).infers hk hinfers
  rw [List.map_map] at hshapes
  exact ⟨h, hshapes⟩

mutual

/-- Where outputs are inferred these are the computed ones. -/
theorem infers_of_evaluate : (b : Block) → {xs ys : List (DenseArray α)} → {shapes : List Shape} →
    b.Fits parameter → b.outputShapes (shapesOfArrays xs) = .ok shapes →
    b.evaluate parameter xs = .ok ys → b.Infers parameter xs ys
  | leaf l slots, xs, ys, shapes, hfits, hshapes, hevaluate => by
    obtain ⟨k, inputs, hk, hfitted⟩ := hfits.of_leaf
    obtain ⟨s, hs⟩ := l.singleton_of_outputShapes hshapes
    obtain ⟨x, rfl, -⟩ := List.map_eq_singleton_iff.mp hs
    exact infers_leaf hfits.complete hk hfitted (infersFor_of_outputShapes hshapes) hevaluate
  | sequential bs, xs, ys, shapes, hfits, hshapes, hevaluate =>
    inferAll_of_evaluate bs hfits hshapes hevaluate

theorem inferAll_of_evaluate : (bs : List Block) → {xs ys : List (DenseArray α)} →
    {shapes : List Shape} → (sequential bs).Fits parameter →
    outputShapesAll bs (shapesOfArrays xs) = .ok shapes →
    evaluateAll parameter bs xs = .ok ys → (sequential bs).Infers parameter xs ys
  | [], xs, ys, shapes, _, _, hevaluate => by
    cases hevaluate
    exact ⟨rfl, rfl⟩
  | b :: bs, xs, ys, shapes, hfits, hshapes, hevaluate => by
    obtain ⟨middle, hmiddle, hshapes⟩ := bind_eq_ok_iff.mp hshapes
    obtain ⟨ms, hms, hevaluate⟩ := bind_eq_ok_iff.mp hevaluate
    have hfirst := infers_of_evaluate b hfits.of_cons.1 hmiddle hms
    cases hmiddle.symm.trans hfirst.outputShapes_eq
    have hrest := inferAll_of_evaluate bs hfits.of_cons.2 hshapes hevaluate
    exact ⟨bind_eq_ok_iff.mpr ⟨ms, hms, hrest.evaluate_eq⟩,
      bind_eq_ok_iff.mpr ⟨_, hmiddle, hrest.outputShapes_eq⟩⟩

end

/-- The first block infers what the others take. -/
theorem infers_cons (hfits : (sequential (b :: bs)).Fits parameter) :
    (sequential (b :: bs)).Infers parameter xs ys ↔
      ∃ ms, b.Infers parameter xs ms ∧ (sequential bs).Infers parameter ms ys := by
  constructor
  · rintro ⟨hevaluate, hshapes⟩
    obtain ⟨ms, hms, hevaluate⟩ := bind_eq_ok_iff.mp hevaluate
    obtain ⟨middle, hmiddle, hshapes⟩ := bind_eq_ok_iff.mp hshapes
    have hfirst := infers_of_evaluate b hfits.of_cons.1 hmiddle hms
    cases hmiddle.symm.trans hfirst.outputShapes_eq
    exact ⟨ms, hfirst, hevaluate, hshapes⟩
  · rintro ⟨ms, hfirst, hrest⟩
    exact ⟨bind_eq_ok_iff.mpr ⟨ms, hfirst.evaluate_eq, hrest.evaluate_eq⟩,
      bind_eq_ok_iff.mpr ⟨_, hfirst.outputShapes_eq, hrest.outputShapes_eq⟩⟩

/-- The others have room for what the first infers. -/
theorem hasRoomForAll_cons {ms : List (DenseArray α)} (hfirst : b.Infers parameter xs ms)
    (hroom : hasRoomForAll (b :: bs) (shapesOfArrays xs) = true) :
    b.hasRoomFor (shapesOfArrays xs) = true ∧ hasRoomForAll bs (shapesOfArrays ms) = true := by
  unfold hasRoomForAll at hroom
  rw [hfirst.outputShapes_eq] at hroom
  exact Bool.and_eq_true_iff.mp hroom

omit [Scalar α] in
theorem hasRoomFor_leaf {x : DenseArray α}
    (hroom : (leaf l slots).hasRoomFor (shapesOfArrays [x]) = true) :
    ∀ t ∈ l.allocates x.extents, t.addressable = true := by
  have hall := List.all_eq_true.mp hroom _ List.mem_cons_self
  rw [Shape.known_ofExtents] at hall
  exact List.all_eq_true.mp hall

/-! ## Chosen samples -/

omit [Scalar α] in
/-- Linear layers infer nothing for vectors, and no channels are normalized on the first axis. -/
theorem apart_of_infers {k : Nat} {inputs shapes : List Shape} {x : DenseArray α} {s : Extents}
    (hk : l.inputWidth inputs = .ok k) (hx : x.extents = n :: s)
    (hshapes : l.outputShapes [Shape.ofExtents x.extents] = .ok shapes) : l.Apart s := by
  cases l with
  | linear units bias =>
    rintro rfl
    refine Layer.not_infers (x := x) ?_ shapes hshapes
    simp [Layer.infersFor, DenseArray.rank, hx]
  | batchNorm axis epsilon momentum => exact Layer.axis_ne_zero hk
  | _ => trivial

mutual

/-- For chosen samples the block computes the chosen samples of its outputs. -/
theorem Infers.choose : (b : Block) → {xs ys : List (DenseArray α)} → b.Fits parameter →
    b.Infers parameter xs ys → HasSamples n xs → (∀ j ∈ idx, j < n) →
    (n < idx.length → b.hasRoomFor (shapesOfArrays (chooseSamples idx xs)) = true) →
    b.Infers parameter (chooseSamples idx xs) (chooseSamples idx ys) ∧ HasSamples n ys
  | leaf l slots, xs, ys, hfits, hinfers, hsamples, hidx, hroom => by
    obtain ⟨k, inputs, hk, hfitted⟩ := hfits.of_leaf
    obtain ⟨x, rfl, hevaluate⟩ := hinfers.of_leaf
    obtain ⟨⟨s, hx⟩, -⟩ := hsamples
    have hpicks := DenseArray.selectFirst_picks idx hx
    have hapart := apart_of_infers hk hx hinfers.outputShapes_eq
    have hmakes := Layer.makes_of_evaluateOn hfits.complete hfitted hevaluate
    obtain ⟨outs', hmakes'⟩ := hmakes.picked hidx hpicks hapart fun hlt => by
      rw [← hpicks.picked]
      exact hasRoomFor_leaf (hroom hlt)
    obtain ⟨ys', hevaluate', -⟩ := Layer.evaluateOn_of_makes hfits.complete hfitted hmakes'
    have hsampled := Layer.evaluateOn_sampled hidx hfits.complete hfitted hpicks hapart hmakes
      ys ys' hevaluate hevaluate'
    obtain rfl := hsampled.eq_chooseSamples
    refine ⟨infers_leaf hfits.complete hk hfitted ?_ hevaluate', hsampled.hasSamples⟩
    rw [infersFor_of_rank (x := x) (by simp [DenseArray.rank, hx, hpicks.picked])]
    exact infersFor_of_outputShapes hinfers.outputShapes_eq
  | sequential bs, xs, ys, hfits, hinfers, hsamples, hidx, hroom =>
    InferAll.choose bs hfits hinfers hsamples hidx hroom

theorem InferAll.choose : (bs : List Block) → {xs ys : List (DenseArray α)} →
    (sequential bs).Fits parameter → (sequential bs).Infers parameter xs ys → HasSamples n xs →
    (∀ j ∈ idx, j < n) →
    (n < idx.length → hasRoomForAll bs (shapesOfArrays (chooseSamples idx xs)) = true) →
    (sequential bs).Infers parameter (chooseSamples idx xs) (chooseSamples idx ys) ∧
      HasSamples n ys
  | [], xs, ys, _, hinfers, hsamples, _, _ => by
    cases hinfers.evaluate_eq
    exact ⟨⟨rfl, rfl⟩, hsamples⟩
  | b :: bs, xs, ys, hfits, hinfers, hsamples, hidx, hroom => by
    obtain ⟨ms, hfirst, hrest⟩ := (infers_cons hfits).mp hinfers
    obtain ⟨hfirst', hsamples'⟩ := Infers.choose b hfits.of_cons.1 hfirst hsamples hidx fun hlt =>
      (Bool.and_eq_true_iff.mp (hroom hlt)).1
    obtain ⟨hrest', hsamples''⟩ := InferAll.choose bs hfits.of_cons.2 hrest hsamples' hidx
      fun hlt => (hasRoomForAll_cons hfirst' (hroom hlt)).2
    exact ⟨(infers_cons hfits).mpr ⟨_, hfirst', hrest'⟩, hsamples''⟩

end

/-! ## Samples by themselves -/

theorem chooseSamples_eq_single {x : DenseArray α} (h : chooseSamples idx xs = [x]) :
    ∃ y, xs = [y] ∧ y.selectFirst idx = x := by
  match xs, h with
  | y :: rest, h =>
    obtain ⟨hx, hrest⟩ := List.cons.inj h
    obtain rfl := List.map_eq_nil_iff.mp hrest
    exact ⟨y, rfl, hx⟩

mutual

/-- A block that computes every sample alone computes all of them, if there is room. -/
theorem infers_of_singles : (b : Block) → {xs : List (DenseArray α)} → b.Fits parameter →
    HasSamples n xs → n ≠ 0 → (∀ j < n, ∃ ys, b.Infers parameter (chooseSamples [j] xs) ys) →
    b.hasRoomFor (shapesOfArrays xs) = true → ∃ ys, b.Infers parameter xs ys
  | leaf l slots, xs, hfits, hsamples, hn, hsingles, hroom => by
    obtain ⟨k, inputs, hk, hfitted⟩ := hfits.of_leaf
    obtain ⟨ys₀, hfirst⟩ := hsingles 0 (Nat.pos_of_ne_zero hn)
    obtain ⟨_, hone, -⟩ := hfirst.of_leaf
    obtain ⟨x, rfl, -⟩ := chooseSamples_eq_single hone
    obtain ⟨⟨s, hx⟩, -⟩ := hsamples
    have hsingle := DenseArray.selectFirst_picks [0] hx
    have hapart := apart_of_infers hk hsingle.picked hfirst.outputShapes_eq
    obtain ⟨outs, hmakes⟩ := Layer.makes_of_singles hx hn hapart (fun j hj => by
      obtain ⟨ys, hinfers⟩ := hsingles j hj
      exact ⟨_, Layer.makes_of_evaluateOn hfits.complete hfitted hinfers.evaluate_eq⟩)
      (hx ▸ hasRoomFor_leaf hroom)
    obtain ⟨ys, hevaluate, -⟩ := Layer.evaluateOn_of_makes hfits.complete hfitted hmakes
    refine ⟨ys, infers_leaf hfits.complete hk hfitted ?_ hevaluate⟩
    rw [infersFor_of_rank (x := x.selectFirst [0]) (by simp [DenseArray.rank, hx, hsingle.picked])]
    exact infersFor_of_outputShapes hfirst.outputShapes_eq
  | sequential bs, xs, hfits, hsamples, hn, hsingles, hroom =>
    inferAll_of_singles bs hfits hsamples hn hsingles hroom

theorem inferAll_of_singles : (bs : List Block) → {xs : List (DenseArray α)} →
    (sequential bs).Fits parameter → HasSamples n xs → n ≠ 0 →
    (∀ j < n, ∃ ys, (sequential bs).Infers parameter (chooseSamples [j] xs) ys) →
    hasRoomForAll bs (shapesOfArrays xs) = true → ∃ ys, (sequential bs).Infers parameter xs ys
  | [], xs, _, _, _, _, _ => ⟨xs, rfl, rfl⟩
  | b :: bs, xs, hfits, hsamples, hn, hsingles, hroom => by
    have hfirsts : ∀ j < n, ∃ ms, b.Infers parameter (chooseSamples [j] xs) ms := fun j hj => by
      obtain ⟨ys, hinfers⟩ := hsingles j hj
      obtain ⟨ms, hfirst, -⟩ := (infers_cons hfits).mp hinfers
      exact ⟨ms, hfirst⟩
    obtain ⟨ms, hfirst⟩ := infers_of_singles b hfits.of_cons.1 hsamples hn hfirsts
      (Bool.and_eq_true_iff.mp hroom).1
    have hchosen : ∀ j < n, b.Infers parameter (chooseSamples [j] xs) (chooseSamples [j] ms) ∧
        HasSamples n ms := fun j hj =>
      Infers.choose b hfits.of_cons.1 hfirst hsamples (List.forall_mem_singleton.mpr hj)
        fun hlt => absurd hlt (Nat.not_lt.mpr (Nat.pos_of_ne_zero hn))
    -- what a sample alone makes the others see is that sample of what all make them see
    have hrests : ∀ j < n, ∃ ys, (sequential bs).Infers parameter (chooseSamples [j] ms) ys :=
      fun j hj => by
        obtain ⟨ys, hinfers⟩ := hsingles j hj
        obtain ⟨ms', hfirst', hrest⟩ := (infers_cons hfits).mp hinfers
        cases hfirst'.evaluate_eq.symm.trans (hchosen j hj).1.evaluate_eq
        exact ⟨ys, hrest⟩
    obtain ⟨ys, hrest⟩ := inferAll_of_singles bs hfits.of_cons.2
      (hchosen 0 (Nat.pos_of_ne_zero hn)).2 hn hrests (hasRoomForAll_cons hfirst hroom).2
    exact ⟨ys, (infers_cons hfits).mpr ⟨ms, hfirst, hrest⟩⟩

end

/-! ## Runs -/

variable {w w' w₁ : Workspace α} {ts : List Tensor} {plan : List (Nat × Extents)}
  {inputs : List Shape}

omit [Scalar α] in
theorem fits_of_models (hcomplete : b.Complete) (hplan : b.plan inputs = .ok plan)
    (hw : w.Models (planned plan)) : b.Fits w.parameter ∧ b.isResolved w = true := by
  have hmodels := List.forall_mem_map.mp hw
  refine ⟨⟨hcomplete, inputs, plan, hplan, fun p hp => Workspace.extents_value (hmodels p hp)⟩, ?_⟩
  refine List.all_eq_true.mpr fun i hi => ?_
  rw [← plan_slots b hplan] at hi
  obtain ⟨p, hp, rfl⟩ := List.mem_map.mp hi
  have hholds := (Workspace.extents?_eq_some.mp (hmodels p hp)).1
  rwa [Workspace.holds, Workspace.content?_eq] at hholds

/-- A run ends with outputs just if the function has a value, and then they hold this value. -/
theorem forward_ok_iff (hcomplete : b.Complete) (hresolved : b.isResolved w = true)
    (hparameter : ∀ i ∈ b.slots, w.parameter i = parameter i) (hmode : w.training = false)
    (hheld : ∀ t ∈ ts, w.holds t = true) :
    b.evaluate parameter (ts.map w.value) = .ok ys ↔
      ∃ ts' w', b.forward ts w = (.ok ts', w') ∧ ts'.map w'.value = ys := by
  rw [← forward_evaluates hcomplete hresolved hparameter hmode hheld]
  constructor
  · intro h
    cases hrun : (b.forward ts w).1 with
    | error e =>
      rw [hrun] at h
      cases h
    | ok ts' =>
      rw [hrun] at h
      exact ⟨ts', _, Prod.ext hrun rfl, Except.ok.inj h⟩
  · rintro ⟨ts', w', hrun, rfl⟩
    rw [hrun]
    rfl

/-- Run on chosen samples, a block in evaluation ends with the chosen samples of the outputs that it
ends with on all. Its parameters are those that it plans for, and if there are more samples than
before there has to be room for them. -/
theorem forward_chooses {x x' : Tensor} {tail : Extents} {outs : List Shape}
    (hcomplete : b.Complete)
    (hplan : b.plan inputs = .ok plan) (hw : w.Models (planned plan))
    (hslots : ∀ i ∈ b.slots, w'.slot i = w.slot i) (hmode : w.training = false)
    (hmode' : w'.training = false) (hheld : w.holds x = true) (hheld' : w'.holds x' = true)
    (hx : (w.value x).extents = n :: tail) (hx' : w'.value x' = (w.value x).selectFirst idx)
    (hidx : ∀ j ∈ idx, j < n) (hroom : n < idx.length → b.hasRoomFor (w'.shapes [x']) = true)
    (hshapes : b.outputShapes (w.shapes [x]) = .ok outs) (hrun : b.forward [x] w = (.ok ts, w₁)) :
    ∃ ts' w₁', b.forward [x'] w' = (.ok ts', w₁') ∧ HasSamples n (ts.map w₁.value) ∧
      ts'.map w₁'.value = chooseSamples idx (ts.map w₁.value) := by
  obtain ⟨hfits, hresolved⟩ := fits_of_models hcomplete hplan hw
  have hresolved' : b.isResolved w' = true := List.all_eq_true.mpr fun i hi => by
    rw [hslots i hi]
    exact List.all_eq_true.mp hresolved i hi
  have hparameter : ∀ i ∈ b.slots, w'.parameter i = w.parameter i := fun i hi => by
    simp only [Workspace.parameter, Workspace.value, Workspace.content?_eq, hslots i hi]
  have hevaluate := (forward_ok_iff hcomplete hresolved (fun _ _ => rfl) hmode
    (List.forall_mem_singleton.mpr hheld)).mpr ⟨ts, w₁, hrun, rfl⟩
  have hinfers : b.Infers w.parameter [w.value x] _ :=
    infers_of_evaluate b hfits hshapes hevaluate
  obtain ⟨hchosen, hsamples⟩ := Infers.choose b hfits hinfers (hasSamples_single hx) hidx
    fun hlt => by
      have hlt := hroom hlt
      rwa [Workspace.shapes, List.map_singleton, hx'] at hlt
  have hinputs : [x'].map w'.value = chooseSamples idx [w.value x] := congrArg ([·]) hx'
  obtain ⟨ts', w₁', hrun', hvalues⟩ := (forward_ok_iff hcomplete hresolved' hparameter hmode'
    (List.forall_mem_singleton.mpr hheld')).mp (hinputs ▸ hchosen.evaluate_eq)
  exact ⟨ts', w₁', hrun', hsamples, hvalues⟩

/-- Two sequences, chosen from three times. -/
theorem forward_chooses_thrice :
    let r : RecurrentLayer := ⟨.rnn .relu, 2, 1, true, by decide, by decide⟩
    let b : Block := sequential [leaf (.linear 2 true) [0, 1], leaf (.recurrent r) [2, 3, 4, 5]]
    let w₀ : Workspace Single :=
      { Workspace.seeded 0 with
        slots := (List.range 6).toArray.map fun i => .declare (toString i) .weight }
    let x : DenseArray Single := ⟨[2, 2, 1], #[1, 0, .ofNat 2, .ofNat 3], rfl⟩
    let w := { (b.resolve .ones [Shape.ofExtents [1, 2, 1]] w₀).2 with
      nodes := #[⟨x, none, false, none⟩, ⟨x.selectFirst [1, 0, 1], none, false, none⟩] }
    ∃ ts w₁ ts' w₁', b.forward [.node 0] w = (.ok ts, w₁) ∧
      b.forward [.node 1] w = (.ok ts', w₁') ∧ HasSamples 2 (ts.map w₁.value) ∧
      ts'.map w₁'.value = chooseSamples [1, 0, 1] (ts.map w₁.value) := by
  intro r b w₀ x w
  let plan : List (Nat × Extents) :=
    [(0, [2, 1]), (1, [2]), (2, [2, 2]), (3, [2]), (4, [2, 2]), (5, [2])]
  have hplan : b.plan [Shape.ofExtents [1, 2, 1]] = .ok plan := by decide +kernel
  have hw : ∀ p ∈ planned plan, w.extents? p.1 = some p.2 := by decide +kernel
  have hheld : w.holds (.node 0) = true := by decide +kernel
  have hheld' : w.holds (.node 1) = true := by decide +kernel
  have hmode : w.training = false := by decide +kernel
  have hidx : ∀ j ∈ [1, 0, 1], j < 2 := by decide
  have hroom : b.hasRoomFor (w.shapes [.node 1]) = true := by decide +kernel
  have hshapes : b.outputShapes (w.shapes [.node 0]) =
      .ok [Shape.ofExtents [2, 2, 2], Shape.ofExtents [1, 2, 2]] := by decide +kernel
  have hmade : (b.forward [.node 0] w).1 = .ok [.node 20, .node 22] := by decide +kernel
  have hrun := Prod.fst_eq_iff.mp hmade
  have hcomplete : b.Complete := ⟨rfl, rfl, trivial⟩
  obtain ⟨ts', w₁', hrun', hvalues⟩ := forward_chooses hcomplete hplan hw (fun _ _ => rfl) hmode
    hmode hheld hheld' rfl rfl hidx (fun _ => hroom) hshapes hrun
  exact ⟨_, _, ts', w₁', hrun, hrun', hvalues⟩

/-- A bias that has a value for every sample of some inputs is added to others as it is. -/
theorem forward_chooses_bias :
    let b : Block := leaf (.linear 1 true) [0, 1]
    let weight : DenseArray Single := ⟨[1, 1], #[1], rfl⟩
    let bias : DenseArray Single := ⟨[2, 1], #[.ofNat 10, .ofNat 20], rfl⟩
    let x : DenseArray Single := ⟨[2, 1], #[1, .ofNat 2], rfl⟩
    let w : Workspace Single :=
      { (Workspace.seeded 0 : Workspace Single) with
        slots := #[⟨"weight", .weight, true, none, some ⟨.float32, weight, none, true⟩⟩,
          ⟨"bias", .bias, true, none, some ⟨.float32, bias, none, true⟩⟩]
        nodes := #[⟨x, none, false, none⟩, ⟨x.selectFirst [1], none, false, none⟩] }
    let all := b.forward [.node 0] w
    let chosen := b.forward [.node 1] w
    let outputs : List (DenseArray Single) := [⟨[2, 1], #[.ofNat 11, .ofNat 22], rfl⟩]
    let outputs' : List (DenseArray Single) := [⟨[2, 1], #[.ofNat 12, .ofNat 22], rfl⟩]
    w.training = false ∧ b.outputShapes (w.shapes [.node 0]) = .ok [Shape.ofExtents [2, 1]] ∧
      all.1.map (·.map all.2.value) = .ok outputs ∧
      chosen.1.map (·.map chosen.2.value) = .ok outputs' ∧
      outputs' ≠ chooseSamples [1] outputs := by
  decide +kernel

/-- One empty sample has an output that can be addressed, four of them have not. -/
theorem forward_chooses_room :
    let b : Block := leaf (.embedding 0 (2 ^ 62)) [0]
    let x : DenseArray Single := ⟨[1, 0], #[], rfl⟩
    let w₀ : Workspace Single :=
      { Workspace.seeded 0 with slots := #[.declare "weight" .weight] }
    let w := { (b.resolve .ones [Shape.ofExtents [1, 0]] w₀).2 with
      nodes := #[⟨x, none, false, none⟩, ⟨x.selectFirst [0, 0, 0, 0], none, false, none⟩] }
    b.isResolved w = true ∧ w.training = false ∧
      b.outputShapes (w.shapes [.node 0]) = .ok [Shape.ofExtents [1, 0, 2 ^ 62]] ∧
      (b.forward [.node 0] w).1.isOk = true ∧ (b.forward [.node 1] w).1.isOk = false := by
  decide +kernel

end Block

end NeuralNet
