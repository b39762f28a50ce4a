import NeuralNet.Proofs.DenseArray.CrossEntropy
import NeuralNet.Proofs.DenseArray.Labels
import NeuralNet.Proofs.Tape.Sweep
import NeuralNet.Proofs.Tape.Values

/-!
# Cross entropy on handles

A label stands for targets, and all that is recorded for the loss depends on these. Over the real
numbers the loss is the mean over the rows, and what goes back to the logits is its derivative.

* `Loss.labels_agree`: labels of either kind that are taken for the same targets;
* `Loss.crossEntropy_by_rows`: the loss and its derivative, for all weights.
-/

namespace NeuralNet

open Finset (range)
open Function (update)
open Run

namespace Loss

section

variable {α : Type} [Scalar α] {p y : Tensor} {w : Workspace α} {s : Extents} {classes : Nat}
  {targets : DenseArray α} {e : Error}

theorem crossEntropy_apply (hp : (w.value p).extents = s ++ [classes]) :
    softmaxCrossEntropy.apply p y w =
      (check ((w.value y).denseTargets s.size classes) >>= fun targets =>
        record (.crossEntropy p (w.value p) targets)
          (.scalar ((w.value p).crossEntropy targets))) w := by
  unfold Loss.apply crossEntropy
  dsimp only
  rw [bind_of_ok (value_apply p w), hp, List.getLast?_concat, List.dropLast_concat]
  dsimp only
  rw [bind_of_ok (value_apply y w)]

/-- What is recorded for targets. -/
theorem crossEntropy_of_targets (hp : (w.value p).extents = s ++ [classes])
    (h : (w.value y).denseTargets s.size classes = .ok targets) :
    softmaxCrossEntropy.apply p y w =
      record (.crossEntropy p (w.value p) targets)
        (.scalar ((w.value p).crossEntropy targets)) w := by
  rw [crossEntropy_apply hp, h]
  rfl

theorem crossEntropy_of_error (hp : (w.value p).extents = s ++ [classes])
    (h : (w.value y).denseTargets s.size classes = .error e) :
    softmaxCrossEntropy.apply p y w = (.error e, w) := by
  rw [crossEntropy_apply hp, h]
  rfl

end

/-- A class for every row may be given by its number, in a label of any extents that are not taken for
a matrix of weights, or by a row of weights. Where the rows of weights are a matrix, it comes to the
same loss, recorded in the same way, and to the same accuracy. With any other axes in front they are
refused, also where they have the extents of the logits. -/
theorem labels_agree {p y : Tensor} {w : Workspace Single} {s : Extents} {classes : Nat}
    {c : Nat → Nat} (hp : (w.value p).extents = s ++ [classes]) (hpos : ∀ n ∈ s ++ [classes], n ≠ 0)
    (hc : ∀ r < s.size, c r < classes) (hy : (w.value y).Numbers s.size c)
    (hmatrix : (w.value y).extents ≠ [s.size, classes]) :
    ∃ id w' a, softmaxCrossEntropy.apply p y w = (.ok (.node id), w') ∧
      accuracy p y w = (.ok a, w) ∧
      ∀ (z : Tensor) (lead : Extents), w.value z = .oneHots lead classes c → lead.size = s.size →
        if lead.length = 1 then
          softmaxCrossEntropy.apply p z w = (.ok (.node id), w') ∧
            (softmaxCrossEntropy.apply p z >>= backward) w =
              (softmaxCrossEntropy.apply p y >>= backward) w ∧
            accuracy p z w = (.ok a, w)
        else ∃ e, softmaxCrossEntropy.apply p z w = (.error e, w) ∧ accuracy p z w = (.error e, w) := by
  have hclasses : 0 < classes := Nat.pos_of_ne_zero (hpos classes (by simp))
  have hbatch : 0 < s.size := Extents.size_pos fun n hn => hpos n (by simp [hn])
  have htargets := DenseArray.denseTargets_of_classNumbers hy hc hmatrix
  have hloss := crossEntropy_of_targets hp htargets
  have haccuracy := DenseArray.accuracy_eq hp hclasses (w.value y)
  rw [htargets] at haccuracy
  refine ⟨_, _, _, hloss.trans (record_apply _ _ _), congrArg (·, w) haccuracy, ?_⟩
  intro z lead hz hlead
  have haccuracy' := DenseArray.accuracy_eq hp hclasses (w.value z)
  by_cases hrank : lead.length = 1
  · rw [if_pos hrank]
    obtain ⟨rows, rfl⟩ := List.length_eq_one_iff.mp hrank
    obtain rfl : rows = s.size := (Nat.mul_one rows).symm.trans hlead
    have htargets' : (w.value z).denseTargets s.size classes =
        .ok (.oneHots [s.size] classes c) := by
      rw [hz]
      exact DenseArray.denseTargets_oneHots s.size classes c
    have hsame : softmaxCrossEntropy.apply p z w = softmaxCrossEntropy.apply p y w :=
      (crossEntropy_of_targets hp htargets').trans hloss.symm
    rw [htargets', ← haccuracy] at haccuracy'
    refine ⟨hsame.trans (hloss.trans (record_apply _ _ _)), ?_, ?_⟩
    · rw [bind_apply, bind_apply, hsame]
    · exact congrArg (·, w) (haccuracy'.trans haccuracy)
  · rw [if_neg hrank]
    have hone : Scalar.toNat? (1 : Single) = some 1 := by decide +kernel
    obtain ⟨e, herror⟩ := DenseArray.denseTargets_oneHots_error hone hrank (hlead ▸ hbatch)
      (hlead ▸ hc)
    rw [← hz, hlead] at herror
    rw [herror] at haccuracy'
    exact ⟨e, crossEntropy_of_error hp herror, congrArg (·, w) haccuracy'⟩

section Example

/-- Two rows of two logits behind an axis of extent 1, with the classes 1 and 0: as numbers, as rows of
weights, and as rows of weights behind that axis. -/
def labelled : Workspace Single :=
  let node (data : DenseArray Single) : Node Single := ⟨data, none, false, none⟩
  { Workspace.seeded 0 with
    nodes := #[node (.zeros [1, 2, 2]), node ⟨[2], #[1, 0], rfl⟩,
      node (.oneHots [2] 2 fun r => 1 - r), node (.oneHots [1, 2] 2 fun r => 1 - r)] }

theorem labels_agree_labelled : ∃ id w' a,
    softmaxCrossEntropy.apply (.node 0) (.node 1) labelled = (.ok (.node id), w') ∧
    softmaxCrossEntropy.apply (.node 0) (.node 2) labelled = (.ok (.node id), w') ∧
    accuracy (.node 0) (.node 1) labelled = (.ok a, labelled) ∧
    accuracy (.node 0) (.node 2) labelled = (.ok a, labelled) := by
  have hnumbers : (labelled.value (.node 1)).Numbers 2 fun r => 1 - r := by
    refine ⟨rfl, fun r hr => ?_⟩
    have htwo : r = 0 ∨ r = 1 := by omega
    rcases htwo with rfl | rfl
    · decide +kernel
    · decide +kernel
  obtain ⟨id, w', a, hloss, haccuracy, hagree⟩ := labels_agree (s := [1, 2]) (c := fun r => 1 - r)
    (p := .node 0) (y := .node 1) (w := labelled) rfl (by decide) (fun r _ => by omega) hnumbers
    (by decide)
  obtain ⟨hloss', -, haccuracy'⟩ := hagree (.node 2) [2] rfl rfl
  exact ⟨id, w', a, hloss, hloss', haccuracy, haccuracy'⟩

/-- Rows of weights with the extents of the logits. -/
theorem labels_agree_fails :
    (labelled.value (.node 3)).extents = (labelled.value (.node 0)).extents ∧
      (∃ e, softmaxCrossEntropy.apply (.node 0) (.node 3) labelled = (.error e, labelled)) ∧
      ∃ e, accuracy (.node 0) (.node 3) labelled = (.error e, labelled) :=
  ⟨rfl, ⟨_, rfl⟩, ⟨_, rfl⟩⟩

end Example

/-! ## The derivative -/

/-- A recorded loss passes on one gradient to the logits. -/
theorem passOn_crossEntropy {α : Type} [ExactScalar α] {p : Tensor} {logits targets g : DenseArray α}
    {u : Workspace α} {id : Nat} (hg : u.gradient (.node id) = some g)
    (hop : u.origin (.node id) = some (.crossEntropy p logits targets)) :
    passOn id u = addGradient p (logits.crossEntropyGradient targets g) u := by
  rw [passOn_of_gradient hg hop, Workspace.links, hop]
  change (addGradient p (logits.crossEntropyGradient targets g) >>= fun _ => pure ()) u = _
  rw [bind_pure_unit]

/-- Over the real numbers the loss of a matrix of logits is the mean over the rows of what the classes
are worth by their weights, whatever number `peak` takes the rows relative to. What the way back adds
to the gradient of the logits are the derivatives of what the loss is worth. The weights of a row may
be any numbers, and add up to any number. -/
theorem crossEntropy_by_rows (read : Single → ℝ) (peak : List ℝ → ℝ) {p y : Tensor} {w : Workspace ℝ}
    {rows classes : Nat} (hp : (w.value p).extents = [rows, classes])
    (hy : (w.value y).extents = [rows, classes]) (hrows : 0 < rows) (hclasses : 0 < classes) :
    letI := ExactField.realFrom read peak
    let X := (w.value p).get
    let T := (w.value y).get
    ∃ id w', softmaxCrossEntropy.apply p y w = (.ok (.node id), w') ∧
      (w'.value (.node id)).extents = [] ∧
      (w'.value (.node id)).get [] = CrossEntropy.mean rows classes X T ∧
      (w.pauses = 0 → w.requiresGrad p = true → ∃ op, w'.origin (.node id) = some op ∧
        ∀ u g, u.origin (.node id) = some op → u.gradient (.node id) = some g → g.extents = [] →
          ∃ D : DenseArray ℝ, passOn id u = addGradient p D u ∧ D.extents = [rows, classes] ∧
            ∀ r < rows, ∀ q < classes, HasDerivAt
              (fun t => g.get [] * CrossEntropy.mean rows classes (update X [r, q] t) T)
              (D.get [r, q]) (X [r, q])) := by
  let _ := ExactField.realFrom read peak
  intro X T
  have htargets : (w.value y).denseTargets (Extents.size [rows]) classes = .ok (w.value y) := by
    refine if_pos ?_
    rw [hy, Extents.size, Extents.size, Nat.mul_one]
  have hrecord := record_apply (.crossEntropy p (w.value p) (w.value y))
    (.scalar ((w.value p).crossEntropy (w.value y))) w
  refine ⟨_, _, (crossEntropy_of_targets (s := [rows]) hp htargets).trans hrecord, ?_, ?_, ?_⟩
  · rw [value_record hrecord]
    rfl
  · rw [value_record hrecord]
    exact DenseArray.crossEntropy_real read peak hp hy hrows hclasses
  · intro hpauses hwants
    have hinput : ∃ t ∈ (Operation.crossEntropy p (w.value p) (w.value y)).inputs,
        w.requiresGrad t = true := ⟨p, List.mem_singleton_self p, hwants⟩
    refine ⟨_, origin_record_of_requiresGrad hrecord hpauses hinput, ?_⟩
    intro u g hu hgradient hg
    refine ⟨_, passOn_crossEntropy hgradient hu, hp, fun r hr q hq => ?_⟩
    exact DenseArray.hasDerivAt_crossEntropyGradient read peak hp hy hg hr hq

section Example

/-- Two equal logits, whose weights add up to 3. -/
noncomputable def weighted : Workspace ℝ :=
  { Workspace.seeded 0 with
    nodes := #[⟨⟨[1, 2], #[0, 0], rfl⟩, none, true, none⟩,
      ⟨⟨[1, 2], #[2, 1], rfl⟩, none, false, none⟩] }

theorem crossEntropy_by_rows_weighted :
    let read (a : Single) : ℝ := a.toRat
    let peak (_ : List ℝ) : ℝ := 7
    letI := ExactField.realFrom read peak
    ∃ id w', softmaxCrossEntropy.apply (.node 0) (.node 1) weighted = (.ok (.node id), w') ∧
      (w'.value (.node id)).get [] = 3 * Real.log 2 ∧ (w'.origin (.node id)).isSome = true := by
  intro read peak
  obtain ⟨id, w', hrun, -, hvalue, hrecorded⟩ := crossEntropy_by_rows read peak (p := .node 0)
    (y := .node 1) (w := weighted) rfl rfl Nat.one_pos Nat.two_pos
  obtain ⟨op, hop, -⟩ := hrecorded rfl rfl
  refine ⟨id, w', hrun, hvalue.trans ?_, Option.isSome_iff_exists.mpr ⟨op, hop⟩⟩
  have hlogit : (weighted.value (.node 0)).get [0, 0] = 0 := rfl
  have hlogit' : (weighted.value (.node 0)).get [0, 1] = 0 := rfl
  have hweight : (weighted.value (.node 1)).get [0, 0] = 2 := rfl
  have hweight' : (weighted.value (.node 1)).get [0, 1] = 1 := rfl
  have hsum : (1 : ℝ) + 1 = 2 := one_add_one_eq_two
  simp only [CrossEntropy.mean, CrossEntropy.row, CrossEntropy.norm, Finset.sum_range_succ,
    Finset.sum_range_zero, zero_add, hlogit, hlogit', hweight, hweight', Real.exp_zero, hsum,
    sub_zero, Nat.cast_one, div_one]
  ring

end Example

end Loss

end NeuralNet
