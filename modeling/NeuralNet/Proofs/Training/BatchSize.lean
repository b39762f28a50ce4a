import NeuralNet.Proofs.DenseArray.Judgement
import NeuralNet.Proofs.Block.Samples
import NeuralNet.Proofs.Training.Evaluation

/-!
# Evaluations do not depend on the batch size

The block computes every sample by itself, and a judgement is a mean over samples. So a batch is
worth the mean of what its samples are worth alone, and an evaluation gives the mean over all
samples, whatever batches they come in. A batch may need arrays that cannot be addressed though no
sample alone does, so there has to be room for it.

* `Block.worth`: what samples are worth alone;
* `Block.judgeAt_ok_iff`: what they are worth together;
* `evaluate_eq_overall`: what an evaluation ends with;
* `evaluate_batchSize`: two evaluations with other batches.
-/

namespace NeuralNet

/-- What samples are worth if each of them is judged alone. -/
def Block.worth {α : Type} [Scalar α] (b : Block) (parameter : Nat → DenseArray α) (loss : Loss)
    (x label : DenseArray α) : Worth α where
  valid j := ∃ q, b.judgeAt parameter loss x label [j] = .ok q
  loss j := ((b.judgeAt parameter loss x label [j]).toOption.getD (0, none)).1
  accuracy j := ((b.judgeAt parameter loss x label [j]).toOption.getD (0, none)).2.getD 0

variable {α : Type} [ExactField α]

/-! ## Means of pieces -/

/-- What an evaluation of some samples gives: nothing without samples. -/
def Worth.overall (v : Worth α) (loss : Loss) (js : List Nat) : Option α × Option α :=
  if js = [] then (none, none) else (some (mean v.loss js), loss.ofAccuracy (mean v.accuracy js))

theorem overall_pieces (v : Worth α) (loss : Loss) (ps : List (List Nat)) :
    Trainer.overall (ps.map fun js => (js.length, v.means loss js)) =
      v.overall loss ps.flatten := by
  have hloss : (Trainer.overall (ps.map fun js => (js.length, v.means loss js))).1 =
      if ps.flatten = [] then none else some (mean v.loss ps.flatten) := by
    rw [← weightedMean_pieces, Trainer.overall, List.map_map]
    rfl
  have haccuracy : (Trainer.overall (ps.map fun js => (js.length, v.means loss js))).2 =
      if ps.flatten = [] then none else loss.ofAccuracy (mean v.accuracy ps.flatten) := by
    unfold Trainer.overall Worth.means
    dsimp only
    rw [List.filterMap_map]
    cases loss with
    | l2 => simp [Loss.ofAccuracy, ExactField.weightedMean_eq]
    | softmaxCrossEntropy => simp [Loss.ofAccuracy, weightedMean_pieces]
  rw [Worth.overall]
  refine Prod.ext (hloss.trans ?_) (haccuracy.trans ?_)
  · split <;> rfl
  · split <;> rfl

theorem mean_congr {value value' : Nat → α} {js ks : List Nat}
    (h : js.map value = ks.map value') : mean value js = mean value' ks := by
  have hlen := congrArg List.length h
  rw [List.length_map, List.length_map] at hlen
  rw [mean, mean, h, hlen]

namespace Block

variable {b : Block} {parameter : Nat → DenseArray α} {loss : Loss} {x label : DenseArray α}
  {ys : List (DenseArray α)} {n m : Nat} {s s' : Extents} {js : List Nat} {outs : List Shape}
  {r : α × Option α}

/-! ## Samples together -/

/-- If the block computes some samples together there is something that they are worth. -/
theorem exists_worth (loss : Loss) (hfits : b.Fits parameter) (hx : x.extents = n :: s)
    (hlabel : label.extents = n :: s') (hinfers : b.Infers parameter [x] ys)
    (hrank : ∀ shape ∈ (shapesOfArrays ys).head?, 2 ≤ shape.rank) :
    ∃ v : Worth α, ∀ ks, ks ≠ [] → (∀ k ∈ ks, k < n) → ks.length ≤ n → ∀ r,
      b.judgeAt parameter loss x label ks = .ok r ↔
        (∀ k ∈ ks, v.valid k) ∧ v.means loss ks = r := by
  have hchoose : ∀ ks, (∀ k ∈ ks, k < n) → ks.length ≤ n →
      b.evaluate parameter [x.selectFirst ks] = .ok (chooseSamples ks ys) ∧ HasSamples n ys :=
    fun ks hks hlen => by
      obtain ⟨hchosen, hsamples⟩ := Infers.choose b hfits hinfers (hasSamples_single hx) hks
        fun hlt => absurd hlt (Nat.not_lt.mpr hlen)
      exact ⟨hchosen.evaluate_eq, hsamples⟩
  obtain ⟨-, hsamples⟩ := hchoose [] (fun k hk => by cases hk) (Nat.zero_le n)
  cases ys with
  | nil => exact hsamples.elim
  | cons y rest =>
    obtain ⟨⟨s₀, hy⟩, -⟩ := hsamples
    have hne : s₀ ≠ [] := by
      rintro rfl
      have hrank : 2 ≤ (Shape.ofExtents y.extents).rank := hrank _ rfl
      rw [hy] at hrank
      exact absurd hrank (Nat.not_succ_le_self 1)
    rw [← List.dropLast_append_getLast hne] at hy
    obtain ⟨v, hv⟩ := loss.exists_worth hy hlabel
    refine ⟨v, fun ks hne hlt hlen r => ?_⟩
    rw [← hv ks hne, judgeAt, judge, (hchoose ks hlt hlen).1]
    rfl

theorem judgeAt_selectFirst (hx : x.extents = n :: s) (hlabel : label.extents = n :: s')
    {ks : List Nat} (hks : ∀ k ∈ ks, k < js.length) :
    b.judgeAt parameter loss (x.selectFirst js) (label.selectFirst js) ks =
      b.judgeAt parameter loss x label (ks.map fun k => js.getD k 0) := by
  rw [judgeAt, judgeAt, DenseArray.selectFirst_selectFirst hx hks,
    DenseArray.selectFirst_selectFirst hlabel hks]

theorem map_getD_range (js : List Nat) :
    ((List.range js.length).map fun k => js.getD k 0) = js :=
  List.ext_getElem (by simp) fun k hk hk' => by simp [hk']

/-- Samples that are worth the same alone are worth the same together. -/
theorem means_worth {v : Worth α} (h : ∀ k (hk : k < js.length),
    b.judgeAt parameter loss x label [js[k]] = .ok (v.means loss [k])) :
    (b.worth parameter loss x label).means loss js = v.means loss (List.range js.length) := by
  have hone : ∀ k, v.means loss [k] = (v.loss k, loss.ofAccuracy (v.accuracy k)) := fun k => by
    simp [Worth.means, mean]
  have hloss : js.map (b.worth parameter loss x label).loss =
      (List.range js.length).map v.loss :=
    List.ext_getElem (by simp) fun k hk hk' => by
      simp [worth, h k (by simpa using hk'), hone, Except.toOption]
  rw [Worth.means, Worth.means, mean_congr hloss]
  cases loss with
  | l2 => rfl
  | softmaxCrossEntropy =>
    have haccuracy : js.map (b.worth parameter .softmaxCrossEntropy x label).accuracy =
        (List.range js.length).map v.accuracy :=
      List.ext_getElem (by simp) fun k hk hk' => by
        simp [worth, h k (by simpa using hk'), hone, Except.toOption, Loss.ofAccuracy]
    rw [mean_congr haccuracy]

/-- Samples that are computed together are worth what they are worth alone. -/
theorem judgeAt_of_infers (hfits : b.Fits parameter) (hx : x.extents = n :: s)
    (hlabel : label.extents = n :: s') (hne : js ≠ [])
    (hinfers : b.Infers parameter [x.selectFirst js] ys)
    (hrank : ∀ shape ∈ (shapesOfArrays ys).head?, 2 ≤ shape.rank) :
    b.judgeAt parameter loss x label js = .ok r ↔
      (∀ j ∈ js, (b.worth parameter loss x label).valid j) ∧
        (b.worth parameter loss x label).means loss js = r := by
  have hpicks := DenseArray.selectFirst_picks js hx
  have hpicks' := DenseArray.selectFirst_picks js hlabel
  obtain ⟨v, hv⟩ := exists_worth loss hfits hpicks.picked hpicks'.picked hinfers hrank
  have hone : ∀ k (hk : k < js.length) q, b.judgeAt parameter loss x label [js[k]] = .ok q ↔
      v.valid k ∧ v.means loss [k] = q := fun k hk q => by
    have hiff := hv [k] (List.cons_ne_nil k []) (List.forall_mem_singleton.mpr hk)
      (Nat.lt_of_le_of_lt (Nat.zero_le k) hk) q
    rw [judgeAt_selectFirst hx hlabel (List.forall_mem_singleton.mpr hk)] at hiff
    simpa [hk] using hiff
  have hvalid : (∀ j ∈ js, (b.worth parameter loss x label).valid j) ↔
      ∀ k ∈ List.range js.length, v.valid k := by
    simp only [List.forall_mem_iff_getElem, List.mem_range, worth]
    refine forall₂_congr fun k hk => ?_
    simp [hone k hk]
  have hrange : List.range js.length ≠ [] := by
    rwa [ne_eq, List.range_eq_nil, List.length_eq_zero_iff]
  have hall := hv _ hrange (fun k => List.mem_range.mp) (Nat.le_of_eq List.length_range) r
  rw [judgeAt_selectFirst hx hlabel fun k => List.mem_range.mp, map_getD_range] at hall
  rw [hall, hvalid]
  refine and_congr_right fun hvalid => ?_
  rw [means_worth fun k hk => (hone k hk _).mpr ⟨hvalid k (List.mem_range.mpr hk), rfl⟩]

theorem shapesOfArrays_selectFirst (hx : x.extents = n :: s) :
    shapesOfArrays [x.selectFirst js] = [Shape.ofExtents (js.length :: s)] := by
  rw [shapesOfArrays, List.map_singleton, (DenseArray.selectFirst_picks js hx).picked]

theorem chooseSamples_selectFirst (hx : x.extents = n :: s) {ks : List Nat}
    (hks : ∀ k ∈ ks, k < js.length) :
    chooseSamples ks [x.selectFirst js] = [x.selectFirst (ks.map fun k => js.getD k 0)] :=
  congrArg ([·]) (DenseArray.selectFirst_selectFirst hx hks)

theorem infers_of_judgeAt (hfits : b.Fits parameter) (hx : x.extents = n :: s)
    (hshapes : b.outputShapes [Shape.ofExtents (n :: s)] = .ok outs)
    (h : b.judgeAt parameter loss x label js = .ok r) :
    ∃ ys, b.Infers parameter [x.selectFirst js] ys := by
  obtain ⟨ys, hevaluate, -⟩ := bind_eq_ok_iff.mp h
  obtain ⟨plan, hplan⟩ := b.plan_batches hshapes
  obtain ⟨⟨outs', hshapes'⟩, -⟩ := hplan js.length
  rw [← shapesOfArrays_selectFirst hx] at hshapes'
  exact ⟨ys, infers_of_evaluate b hfits hshapes' hevaluate⟩

/-- What is computed alone is computed together, if there is room. -/
theorem infers_of_each (hfits : b.Fits parameter) (hx : x.extents = n :: s) (hne : js ≠ [])
    (hlen : js.length ≤ m) (hroom : b.hasRoomFor [Shape.ofExtents (m :: s)] = true)
    (heach : ∀ j ∈ js, ∃ ys, b.Infers parameter [x.selectFirst [j]] ys) :
    ∃ ys, b.Infers parameter [x.selectFirst js] ys := by
  -- as many samples as there is room for, the first one repeated; those in question come first
  let all := js ++ List.replicate (m - js.length) (js.head hne)
  have hall : all.length = m := by
    simp [all, Nat.add_sub_of_le hlen]
  have hmem : ∀ j ∈ all, j ∈ js := by
    intro j hj
    rcases List.mem_append.mp hj with hj | hj
    · exact hj
    · exact List.eq_of_mem_replicate hj ▸ List.head_mem hne
  have hpicks := DenseArray.selectFirst_picks all hx
  have hsamples : HasSamples m [x.selectFirst all] :=
    hasSamples_single (hall ▸ hpicks.picked)
  have hm : m ≠ 0 :=
    Nat.pos_iff_ne_zero.mp (Nat.lt_of_lt_of_le (List.length_pos_of_ne_nil hne) hlen)
  obtain ⟨ys, hys⟩ := infers_of_singles b hfits hsamples hm (fun k hk => by
    have hlt : k < all.length := hall ▸ hk
    obtain ⟨zs, hzs⟩ := heach _ (hmem _ (List.getElem_mem hlt))
    refine ⟨zs, ?_⟩
    rw [chooseSamples_selectFirst hx (List.forall_mem_singleton.mpr hlt)]
    simpa [hlt] using hzs) (by rw [shapesOfArrays_selectFirst hx, hall]; exact hroom)
  have hchosen : b.Infers parameter (chooseSamples (List.range js.length) [x.selectFirst all])
      (chooseSamples (List.range js.length) ys) := by
    refine (Infers.choose b hfits hys hsamples (fun k hk => ?_) fun hlt => ?_).1
    · exact Nat.lt_of_lt_of_le (List.mem_range.mp hk) hlen
    · rw [List.length_range] at hlt
      exact absurd hlt (Nat.not_lt.mpr hlen)
  have hfirst : ((List.range js.length).map fun k => all.getD k 0) = js :=
    List.ext_getElem (by simp) fun k hk hk' => by
      simp [all, List.getElem?_append_left hk', hk']
  rw [chooseSamples_selectFirst hx fun k hk => ?_, hfirst] at hchosen
  · exact ⟨_, hchosen⟩
  · rw [hall]
    exact Nat.lt_of_lt_of_le (List.mem_range.mp hk) hlen

/-- A batch that there is room for is worth what its samples are worth alone. -/
theorem judgeAt_ok_iff (hfits : b.Fits parameter) (hx : x.extents = n :: s)
    (hlabel : label.extents = n :: s')
    (hshapes : b.outputShapes [Shape.ofExtents (n :: s)] = .ok outs)
    (hrank : ∀ shape ∈ outs.head?, 2 ≤ shape.rank) (hne : js ≠ []) (hlen : js.length ≤ m)
    (hroom : b.hasRoomFor [Shape.ofExtents (m :: s)] = true) :
    b.judgeAt parameter loss x label js = .ok r ↔
      (∀ j ∈ js, (b.worth parameter loss x label).valid j) ∧
        (b.worth parameter loss x label).means loss js = r := by
  -- there are labels for what is computed, and if nothing is, it fails for a sample alone
  by_cases hinfers : ∃ ys, b.Infers parameter [x.selectFirst js] ys
  · obtain ⟨ys, hys⟩ := hinfers
    obtain ⟨outs', -, hshapes', hbatch, -⟩ := b.outputShapes_rebatched (m := js.length) hshapes
      ⟨n, s, [], [], rfl, rfl, rfl⟩
    have hinferred := hys.outputShapes_eq
    rw [shapesOfArrays_selectFirst hx] at hinferred
    cases hshapes'.symm.trans hinferred
    exact judgeAt_of_infers hfits hx hlabel hne hys (hbatch.rank hrank)
  · constructor
    · intro h
      exact absurd (infers_of_judgeAt hfits hx hshapes h) hinfers
    · rintro ⟨hvalid, -⟩
      refine absurd (infers_of_each hfits hx hne hlen hroom fun j hj => ?_) hinfers
      obtain ⟨q, hq⟩ := hvalid j hj
      exact infers_of_judgeAt hfits hx hshapes hq

end Block

/-! ## Evaluations -/

namespace Trainer

variable {t : Trainer α} {d : Dataset α} {inputs outs : List Shape}
  {plan : List (Nat × Extents)} {m : Nat} {r : Option α × Option α}

/-- What the samples of a data set are worth alone. -/
def worth (t : Trainer α) (d : Dataset α) : Worth α :=
  t.block.worth t.workspace.parameter t.settings.loss d.data d.labels

/-- If there is room for its batches, an evaluation ends well just if the trainer can prepare itself
and all samples are valid, and then with what they are worth. -/
theorem evaluate_eq_overall (hcomplete : t.block.Complete)
    (hplan : t.block.plan inputs = .ok plan) (hw : t.workspace.Models (Block.planned plan))
    (hshapes : t.block.outputShapes [Shape.ofExtents d.data.extents] = .ok outs)
    (hrank : ∀ shape ∈ outs.head?, 2 ≤ shape.rank) (hm : min d.batchSize d.size ≤ m)
    (hroom : t.block.hasRoomFor [Shape.ofExtents (m :: d.data.extents.tail)] = true) :
    (evaluate d t).1 = .ok r ↔ (d.size ≠ 0 → t.Prepares d.data.extents.tail) ∧
      (∀ j < d.size, (t.worth d).valid j) ∧
        (t.worth d).overall t.settings.loss (List.range d.size) = r := by
  obtain ⟨hfits, hresolved⟩ := Block.fits_of_models hcomplete hplan hw
  obtain ⟨ps, hflatten, hsizes, hps⟩ := d.batchesWith_none 0
  rw [d.extents_data] at hshapes
  have hsized : ∀ p ∈ ps, ∀ q, t.Sized d p q ↔ (∀ j ∈ p, (t.worth d).valid j) ∧
      (p.length, (t.worth d).means t.settings.loss p) = q := fun p hp q => by
    obtain ⟨hne, hlen⟩ := hsizes p hp
    have hlen : p.length ≤ m :=
      Nat.le_trans (Nat.le_min.mpr ⟨hlen, (bounds_of_flatten hflatten hp).2⟩) hm
    simp only [Sized, Block.judgeAt_ok_iff hfits d.extents_data d.extents_labels hshapes hrank hne
      hlen hroom]
    constructor
    · rintro ⟨_, ⟨hvalid, rfl⟩, rfl⟩
      exact ⟨hvalid, rfl⟩
    · rintro ⟨hvalid, rfl⟩
      exact ⟨_, ⟨hvalid, rfl⟩, rfl⟩
  have hall : (∀ p ∈ ps, ∀ j ∈ p, (t.worth d).valid j) ↔ ∀ j < d.size, (t.worth d).valid j := by
    simp only [← List.mem_range, ← hflatten, List.mem_flatten]
    exact ⟨fun h j ⟨p, hp, hj⟩ => h p hp j hj, fun h p hp j hj => h j ⟨p, hp, hj⟩⟩
  rw [evaluate_ok_iff hcomplete hresolved hshapes hps, ← hflatten, ← overall_pieces, ← hall,
    ne_nil_iff_of_flatten hflatten fun p hp => (hsizes p hp).1]
  constructor
  · rintro ⟨rs, hprepares, hrs, rfl⟩
    obtain ⟨hvalid, rfl⟩ := (forall₂_function_iff hsized).mp hrs
    exact ⟨hprepares, hvalid, rfl⟩
  · rintro ⟨hprepares, hvalid, rfl⟩
    exact ⟨_, hprepares, (forall₂_function_iff hsized).mpr ⟨hvalid, rfl⟩, rfl⟩

/-- Evaluations of the same samples with the same labels end alike, whatever batches there is room
for: if one ends well the other does, with the same loss and the same accuracy. -/
theorem evaluate_batchSize {d' : Dataset α} (hcomplete : t.block.Complete)
    (hplan : t.block.plan inputs = .ok plan) (hw : t.workspace.Models (Block.planned plan))
    (hdata : d'.data = d.data) (hlabels : d'.labels = d.labels)
    (hshapes : t.block.outputShapes [Shape.ofExtents d.data.extents] = .ok outs)
    (hrank : ∀ shape ∈ outs.head?, 2 ≤ shape.rank)
    (hm : min d.batchSize d.size ≤ m) (hm' : min d'.batchSize d'.size ≤ m)
    (hroom : t.block.hasRoomFor [Shape.ofExtents (m :: d.data.extents.tail)] = true) :
    (evaluate d' t).1 = .ok r ↔ (evaluate d t).1 = .ok r := by
  rw [evaluate_eq_overall hcomplete hplan hw hshapes hrank hm hroom]
  rw [← hdata] at hshapes hroom
  rw [evaluate_eq_overall hcomplete hplan hw hshapes hrank hm' hroom, worth, worth, hdata, hlabels,
    Dataset.size_eq_of_data hdata]

/-- Three samples with their classes, one at a time and in two batches. -/
theorem evaluate_batchSize_three :
    let b : Block := .sequential [.leaf (.linear 2 true) [0, 1], .leaf (.activation .relu) []]
    let weight : Content ℚ := ⟨.float32, ⟨[2, 1], #[1, -2], rfl⟩, none, true⟩
    let bias : Content ℚ := ⟨.float32, ⟨[2], #[0, 3], rfl⟩, none, true⟩
    let t : Trainer ℚ := ⟨b, { TrainingSettings.default with loss := .softmaxCrossEntropy }, none,
      { (Workspace.seeded 0 : Workspace ℚ) with
        slots := #[⟨"weight", .weight, true, none, some weight⟩,
          ⟨"bias", .bias, true, none, some bias⟩] }⟩
    let d : Dataset ℚ :=
      ⟨⟨[3, 1], #[1, 2, 3], rfl⟩, ⟨[3], #[0, 1, 0], rfl⟩, 1, none, 3, rfl, rfl, by decide⟩
    let d' : Dataset ℚ := { d with batchSize := 2, batchSize_pos := by decide }
    (evaluate d t).1 = .ok (some (-1), some (2 / 3)) ∧
      (evaluate d' t).1 = .ok (some (-1), some (2 / 3)) := by
  intro b weight bias t d d'
  have hone : (evaluate d t).1 = .ok (some (-1), some (2 / 3)) := by decide +kernel
  have hplan : b.plan [Shape.ofExtents [3, 1]] = .ok [(0, [2, 1]), (1, [2])] := by decide +kernel
  have hw : ∀ p ∈ Block.planned [(0, [2, 1]), (1, [2])], t.workspace.extents? p.1 = some p.2 := by
    decide +kernel
  have hshapes : b.outputShapes [Shape.ofExtents [3, 1]] = .ok [Shape.ofExtents [3, 2]] := by
    decide +kernel
  have hrank : ∀ s ∈ [Shape.ofExtents [3, 2]].head?, 2 ≤ s.rank := by decide
  have hroom : b.hasRoomFor [Shape.ofExtents [2, 1]] = true := by decide +kernel
  have hcomplete : b.Complete := ⟨rfl, rfl, trivial⟩
  have hdata : d'.data = d.data := rfl
  have hlabels : d'.labels = d.labels := rfl
  have hm : min d.batchSize d.size ≤ 2 := by decide
  have hm' : min d'.batchSize d'.size ≤ 2 := by decide
  exact ⟨hone, (evaluate_batchSize hcomplete hplan hw hdata hlabels hshapes hrank hm hm'
    hroom).mpr hone⟩

/-- The output for four samples together has no values, but its extents are too great. -/
theorem evaluate_batchSize_room :
    let b : Block := .leaf (.embedding 0 (2 ^ 62)) [0]
    let w : Workspace ℚ :=
      { (Workspace.seeded 0 : Workspace ℚ) with slots := #[.declare "weight" .weight] }
    let t : Trainer ℚ := ⟨b, { TrainingSettings.default with loss := .l2 }, none,
      (b.resolve .ones [Shape.ofExtents [1, 0]] w).2⟩
    let samples : DenseArray ℚ := ⟨[4, 0], #[], rfl⟩
    let d : Dataset ℚ := ⟨samples, samples, 1, none, 4, rfl, rfl, by decide⟩
    let d' : Dataset ℚ := { d with batchSize := 4, batchSize_pos := by decide }
    b.isResolved t.workspace = true ∧
      b.outputShapes [Shape.ofExtents [4, 0]] = .ok [Shape.ofExtents [4, 0, 2 ^ 62]] ∧
      (evaluate d t).1 = .ok (some 0, none) ∧ (evaluate d' t).1.isOk = false := by
  decide +kernel

end Trainer

end NeuralNet
