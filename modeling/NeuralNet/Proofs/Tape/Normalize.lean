import Mathlib
import NeuralNet.Proofs.DenseArray.NormalizationGradient
import NeuralNet.Proofs.Number.Real
import NeuralNet.Proofs.Tape.Sweep
import NeuralNet.Proofs.Tape.Values

/-!
# Normalizing on handles

In training every channel is normalized by its own values, and the running statistics move towards
them; afterwards it is normalized by the running statistics, which stay. What goes back from a
result of training is the derivative of all it is worth, through the mean and the variance as well.

* `Run.normalize_of_training`, `Run.normalize_of_evaluation`: what is recorded in either mode;
* `Run.normalize_by_channel`: what comes of it over the real numbers, forward and backward.
-/

namespace NeuralNet

open Function (update)
open Tensor (Normalization)

/-- There are values to normalize, and one of every parameter and statistic for each channel. -/
structure Tensor.Normalization.Fits {α : Type} (how : Normalization) (w : Workspace α)
    (x gamma beta mean variance : Tensor) (s : Extents) : Prop where
  input : (w.value x).extents = s
  values : ∀ n ∈ s, n ≠ 0
  axis : how.axis < s.length
  gamma : (w.value gamma).extents = [s.getD how.axis 0]
  beta : (w.value beta).extents = [s.getD how.axis 0]
  mean : (w.value mean).extents = [s.getD how.axis 0]
  variance : (w.value variance).extents = [s.getD how.axis 0]

namespace Tensor.Normalization.Fits

variable {α : Type} {how : Normalization} {w : Workspace α} {x gamma beta mean variance : Tensor}
  {s : Extents}

theorem channels_ne_zero (h : how.Fits w x gamma beta mean variance s) :
    s.getD how.axis 0 ≠ 0 := by
  have hget : s.getD how.axis 0 = s.get ⟨how.axis, h.axis⟩ := by simp [h.axis]
  rw [hget]
  exact h.values _ (List.get_mem _ _)

/-- The statistics are there to be moved. -/
theorem holds_mean (h : how.Fits w x gamma beta mean variance s) : w.holds mean = true :=
  Workspace.holds_of_extents h.mean (by simpa using h.channels_ne_zero)

theorem holds_variance (h : how.Fits w x gamma beta mean variance s) :
    w.holds variance = true :=
  Workspace.holds_of_extents h.variance (by simpa using h.channels_ne_zero)

end Tensor.Normalization.Fits

namespace Run

section

variable {α : Type} [Scalar α] {how : Normalization} {w : Workspace α}
  {x gamma beta mean variance : Tensor} {s : Extents}

/-- What is recorded: in training the result by the statistics of the batch, after the running
statistics have moved towards them, otherwise the result by the running statistics. -/
theorem normalize_of_fits (h : how.Fits w x gamma beta mean variance s) :
    let ε : α := Scalar.ofSingle how.epsilon
    let momentum : α := Scalar.ofSingle how.momentum
    let rows := (w.value x).toRows how.axis
    let batchMean := Normalized.batchMean rows
    let batchVariance := Normalized.batchVariance rows batchMean
    let trained := Normalized.ofBatch (w.value x) (w.value gamma) how.axis ε
    let evaluated := Normalized.of (w.value x) (w.value mean) (w.value variance) (w.value gamma)
      how.axis ε false
    x.normalize gamma beta mean variance how w =
      if how.training then
        record (.normalize x gamma beta trained) (trained.output (w.value beta))
          ((w.setValue mean (Normalized.blend momentum (w.value mean) batchMean)).setValue variance
            (Normalized.blend momentum (w.value variance) batchVariance))
      else record (.normalize x gamma beta evaluated) (evaluated.output (w.value beta)) w := by
  intro ε momentum rows batchMean batchVariance trained evaluated
  have hrank : ¬(w.value x).rank ≤ how.axis := by
    rw [DenseArray.rank, h.input]
    exact Nat.not_le.mpr h.axis
  unfold Tensor.normalize
  rw [bind_of_ok (value_apply x w)]
  dsimp only
  rw [if_neg hrank, h.input, bind_of_ok (perChannel_of_extents h.gamma),
    bind_of_ok (perChannel_of_extents h.beta), bind_of_ok (perChannel_of_extents h.mean),
    bind_of_ok (perChannel_of_extents h.variance)]
  cases how.training with
  | true => rfl
  | false => rfl

/-- A batch leaves its result on the tape, and its statistics in the running ones. -/
theorem normalize_of_training (h : how.Fits w x gamma beta mean variance s)
    (htraining : how.training = true) :
    let momentum : α := Scalar.ofSingle how.momentum
    let rows := (w.value x).toRows how.axis
    let batchMean := Normalized.batchMean rows
    let batchVariance := Normalized.batchVariance rows batchMean
    let n := Normalized.ofBatch (w.value x) (w.value gamma) how.axis (Scalar.ofSingle how.epsilon)
    ∃ id w', x.normalize gamma beta mean variance how w = (.ok (.node id), w') ∧
      w'.value (.node id) = n.output (w.value beta) ∧
      (mean ≠ variance →
        w'.value mean = Normalized.blend momentum (w.value mean) batchMean) ∧
      w'.value variance = Normalized.blend momentum (w.value variance) batchVariance ∧
      (w.pauses = 0 → (∃ t ∈ [x, gamma, beta], w.requiresGrad t = true) →
        w'.origin (.node id) = some (.normalize x gamma beta n)) := by
  intro momentum rows batchMean batchVariance n
  let newMean := Normalized.blend momentum (w.value mean) batchMean
  let newVariance := Normalized.blend momentum (w.value variance) batchVariance
  let moved := w.setValue mean newMean
  have hmean : moved.holds mean = true := Workspace.holds_setValue.trans h.holds_mean
  have hvariance : moved.holds variance = true := Workspace.holds_setValue.trans h.holds_variance
  have hrecord := record_apply (.normalize x gamma beta n) (n.output (w.value beta))
    (moved.setValue variance newVariance)
  refine ⟨_, _, ?_, value_record hrecord, ?_, ?_, ?_⟩
  · rw [normalize_of_fits h, if_pos htraining]
    exact hrecord
  · intro hne
    rw [value_record_of_holds hrecord (Workspace.holds_setValue.trans hmean),
      Workspace.value_setValue_of_ne hne, Workspace.value_setValue_self h.holds_mean]
  · rw [value_record_of_holds hrecord (Workspace.holds_setValue.trans hvariance),
      Workspace.value_setValue_self hvariance]
  · rintro hpauses ⟨t, ht, hwanted⟩
    apply origin_record_of_requiresGrad hrecord
    · rw [Workspace.pauses_setValue, Workspace.pauses_setValue, hpauses]
    · refine ⟨t, ht, ?_⟩
      rw [Workspace.requiresGrad_setValue, Workspace.requiresGrad_setValue, hwanted]

/-- The running statistics stay as they are when they are made use of. -/
theorem normalize_of_evaluation (h : how.Fits w x gamma beta mean variance s)
    (hevaluation : how.training = false) :
    let n := Normalized.of (w.value x) (w.value mean) (w.value variance) (w.value gamma) how.axis
      (Scalar.ofSingle how.epsilon) false
    ∃ id w', x.normalize gamma beta mean variance how w = (.ok (.node id), w') ∧
      w'.value (.node id) = n.output (w.value beta) ∧
      ∀ t, w.holds t = true → w'.value t = w.value t := by
  intro n
  have hrecord := record_apply (.normalize x gamma beta n) (n.output (w.value beta)) w
  refine ⟨_, _, ?_, value_record hrecord, fun t => value_record_of_holds hrecord⟩
  rw [normalize_of_fits h, if_neg (Bool.eq_false_iff.mp hevaluation)]
  exact hrecord

end

/-- A recorded normalization passes on one gradient to each of its operands. -/
theorem passOn_normalize {α : Type} [ExactScalar α] {x gamma beta : Tensor} {n : Normalized α}
    {u : Workspace α} {id : Nat} {g : DenseArray α} (hg : u.gradient (.node id) = some g)
    (hop : u.origin (.node id) = some (.normalize x gamma beta n)) :
    passOn id u = (do
      addGradient x (n.toInput g)
      addGradient gamma (n.toGamma g)
      addGradient beta (n.toBeta g)) u := by
  rw [passOn_of_gradient hg hop, Workspace.links, hop]
  change (addGradient x (n.toInput g) >>= fun _ => addGradient gamma (n.toGamma g) >>= fun _ =>
    addGradient beta (n.toBeta g) >>= fun _ => pure ()) u = _
  rw [bind_pure_unit]

/-- Over the real numbers, a value is normalized by the mean and the variance of the values that have
its channel, and of no others, which in training also move the running statistics; otherwise by the
running statistics, which stay. In training, what the way back adds to the gradients of the values,
of the scales and of the shifts are the derivatives of what the results are worth, where the mean and
the variance are functions of the values. -/
theorem normalize_by_channel (read : Single → ℝ) {x gamma beta mean variance : Tensor}
    {how : Normalization} {w : Workspace ℝ} {s : Extents}
    (h : how.Fits w x gamma beta mean variance s) (hε : 0 < read how.epsilon) :
    letI := ExactField.real read
    let ε := read how.epsilon
    let momentum := read how.momentum
    let X := (w.value x).get
    let γ c := (w.value gamma).get [c]
    let β c := (w.value beta).get [c]
    ∃ id w', x.normalize gamma beta mean variance how w = (.ok (.node id), w') ∧
      (w'.value (.node id)).extents = s ∧
      (how.training = true →
        (∀ i, s.Contains i → (w'.value (.node id)).get i = s.trained how.axis ε γ β X i) ∧
        (∀ c < s.getD how.axis 0,
          (mean ≠ variance → (w'.value mean).get [c] =
            momentum * (w.value mean).get [c] + (1 - momentum) * s.channelMean how.axis X c) ∧
          (w'.value variance).get [c] = momentum * (w.value variance).get [c] +
            (1 - momentum) * s.channelVariance how.axis X c) ∧
        (w.pauses = 0 → (∃ t ∈ [x, gamma, beta], w.requiresGrad t = true) →
          ∃ op, w'.origin (.node id) = some op ∧ ∀ u g, u.origin (.node id) = some op →
          u.gradient (.node id) = some g → g.extents = s → ∃ dX dγ dβ : DenseArray ℝ,
            passOn id u = (do
              addGradient x dX
              addGradient gamma dγ
              addGradient beta dβ) u ∧
            dX.extents = s ∧ dγ.extents = [s.getD how.axis 0] ∧ dβ.extents = [s.getD how.axis 0] ∧
            (∀ q, s.Contains q → HasDerivAt (fun t => ∑ i ∈ s.box,
              g.get i * s.trained how.axis ε γ β (update X q t) i) (dX.get q) (X q)) ∧
            (∀ c < s.getD how.axis 0, HasDerivAt (fun t => ∑ i ∈ s.box,
              g.get i * s.trained how.axis ε (update γ c t) β X i) (dγ.get [c]) (γ c)) ∧
            ∀ c < s.getD how.axis 0, HasDerivAt (fun t => ∑ i ∈ s.box,
              g.get i * s.trained how.axis ε γ (update β c t) X i) (dβ.get [c]) (β c))) ∧
      (how.training = false →
        (∀ i, s.Contains i → (w'.value (.node id)).get i =
          γ (i.getD how.axis 0) * (X i - (w.value mean).get [i.getD how.axis 0]) /
            √((w.value variance).get [i.getD how.axis 0] + ε) + β (i.getD how.axis 0)) ∧
        ∀ t, w.holds t = true → w'.value t = w.value t) := by
  let _ := ExactField.real read
  intro ε momentum X γ β
  have hrows := DenseArray.inRows_toRows h.input h.axis
  have hextents (rows : DenseArray ℝ) : (rows.fromRows (w.value x).extents how.axis).extents = s :=
    (DenseArray.extents_fromRows rows (h.input ▸ h.axis)).trans h.input
  cases hmode : how.training with
  | true =>
    obtain ⟨id, w', hrun, hvalue, hmean, hvariance, hop⟩ := normalize_of_training h hmode
    refine ⟨id, w', hrun, hvalue ▸ hextents _, fun _ => ⟨?_, ?_, ?_⟩, nofun⟩
    · intro i hi
      rw [hvalue]
      exact Normalized.get_output_ofBatch h.input h.values h.axis h.gamma h.beta hi
    · intro c hc
      have hbatchMean := Normalized.get_batchMean hrows h.values h.axis hc
      have hmeans := Normalized.extents_batchMean hrows
      constructor
      · intro hne
        rw [hmean hne, ← hbatchMean]
        exact Normalized.get_blend h.mean hmeans hc
      · rw [hvariance, ← Normalized.get_batchVariance hrows h.values h.axis hc hmeans hbatchMean]
        exact Normalized.get_blend h.variance (Normalized.extents_batchVariance hrows _) hc
    · intro hpauses hwanted
      refine ⟨_, hop hpauses hwanted, ?_⟩
      intro u g hu hgradient hg
      have hrowsg := DenseArray.inRows_toRows hg h.axis
      have hstandard : DenseArray.InRows
          (Normalized.ofBatch (w.value x) (w.value gamma) how.axis ε).standard s how.axis _ :=
        Normalized.inRows_ofBatch h.input h.values h.axis
      refine ⟨_, _, _, passOn_normalize hgradient hu, hextents _,
        (hrowsg.zipWith h.axis (· * ·) hstandard).extents_sum, hrowsg.extents_sum, ?_, ?_, ?_⟩
      · intro q hq
        exact Normalized.hasDerivAt_toInput read h.input h.values h.axis h.gamma hε hg hq β
      · intro c hc
        exact Normalized.hasDerivAt_toGamma read h.input h.values h.axis hg hc β
      · intro c hc
        exact Normalized.hasDerivAt_toBeta read h.axis hg hc γ
  | false =>
    obtain ⟨id, w', hrun, hvalue, hkept⟩ := normalize_of_evaluation h hmode
    refine ⟨id, w', hrun, hvalue ▸ hextents _, nofun, fun _ => ⟨?_, hkept⟩⟩
    intro i hi
    rw [hvalue]
    exact Normalized.get_output_exact h.input h.axis h.mean h.variance h.gamma h.beta hi

section Example

/-- Two values of one channel, before any batch. -/
noncomputable def fresh : Workspace ℝ :=
  let node (data : DenseArray ℝ) (wanted : Bool) : Node ℝ := ⟨data, none, wanted, none⟩
  { Workspace.seeded 0 with
    nodes := #[node ⟨[2, 1], #[1, 3], rfl⟩ true, node ⟨[1], #[1], rfl⟩ true,
      node ⟨[1], #[0], rfl⟩ true, node ⟨[1], #[0], rfl⟩ false, node ⟨[1], #[1], rfl⟩ false] }

theorem fits_fresh : Normalization.Fits ⟨1, .one, .zero, true⟩ fresh (.node 0) (.node 1) (.node 2)
    (.node 3) (.node 4) [2, 1] := ⟨rfl, by decide, by decide, rfl, rfl, rfl, rfl⟩

theorem sum_channel_fresh (f : List Nat → ℝ) :
    ∑ i ∈ Extents.channel [2, 1] 1 0, f i = f [0, 0] + f [1, 0] := by
  simp [Extents.channel, Finset.sum_filter, Extents.sum_box_cons, Extents.sum_box_nil,
    Finset.sum_range_succ]

theorem channelMean_fresh :
    Extents.channelMean [2, 1] 1 (fresh.value (.node 0)).get 0 = (1 + 3) / 2 := by
  have hcard : (Extents.channel [2, 1] 1 0).card = 2 := Extents.card_channel (by decide) (by decide)
  rw [Extents.channelMean, sum_channel_fresh, hcard]
  rfl

theorem channelVariance_fresh :
    Extents.channelVariance [2, 1] 1 (fresh.value (.node 0)).get 0 =
      ((1 - 2) ^ 2 + (3 - 2) ^ 2) / 2 := by
  have hcard : (Extents.channel [2, 1] 1 0).card = 2 := Extents.card_channel (by decide) (by decide)
  have hmean : (1 + 3) / 2 = (2 : ℝ) := by norm_num
  rw [Extents.channelVariance, sum_channel_fresh, hcard, channelMean_fresh, hmean]
  rfl

theorem normalize_by_channel_fresh :
    let read (a : Single) : ℝ := a.toRat
    letI := ExactField.real read
    ∃ id w', (Tensor.node 0).normalize (.node 1) (.node 2) (.node 3) (.node 4)
        ⟨1, .one, .zero, true⟩ fresh = (.ok (.node id), w') ∧
      (w'.value (.node id)).get [0, 0] = -1 / √2 ∧ (w'.value (.node 3)).get [0] = 2 ∧
      (w'.origin (.node id)).isSome = true := by
  intro read
  have hone : read .one = 1 := by
    have hrat : Single.one.toRat = 1 := by decide +kernel
    exact (congrArg _ hrat).trans Rat.cast_one
  have hzero : read .zero = 0 := by
    have hrat : Single.zero.toRat = 0 := by decide +kernel
    exact (congrArg _ hrat).trans Rat.cast_zero
  obtain ⟨id, w', hrun, -, htrained, -⟩ := normalize_by_channel read fits_fresh (hone ▸ one_pos)
  obtain ⟨hvalues, hstatistics, hrecorded⟩ := htrained rfl
  refine ⟨id, w', hrun, ?_, ?_, ?_⟩
  · have hinput : (fresh.value (.node 0)).get [0, 0] = 1 := rfl
    have hscale : (fresh.value (.node 1)).get [0] = 1 := rfl
    have hshift : (fresh.value (.node 2)).get [0] = 0 := rfl
    rw [hvalues _ (by decide), Extents.trained, List.getD_cons_succ, List.getD_cons_zero,
      channelMean_fresh, channelVariance_fresh, hone, hinput, hscale, hshift]
    norm_num
  · rw [(hstatistics 0 (by decide)).1 (by decide), channelMean_fresh, hzero]
    norm_num
  · obtain ⟨op, hop, -⟩ := hrecorded rfl ⟨.node 0, List.mem_cons_self, rfl⟩
    rw [hop, Option.isSome_some]

end Example

end Run

end NeuralNet
