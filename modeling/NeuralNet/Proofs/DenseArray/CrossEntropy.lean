import Mathlib
import NeuralNet.DenseArray.Loss
import NeuralNet.Proofs.DenseArray.NormalizationGradient
import NeuralNet.Proofs.Number.Real

/-!
# Cross entropy over the real numbers

The loss is computed relative to some number of every row, the greatest as a rule, and leaves out the
classes without weight. What comes of it depends on neither. On the way back the shares of the classes
are scaled by the weight of the row, which need not be 1.

* `DenseArray.crossEntropy_real`: the loss;
* `DenseArray.hasDerivAt_crossEntropyGradient`: what goes back is its derivative.
-/

namespace NeuralNet

open Finset (range)
open Function (update)

/-- The real numbers, with any number for the one that a row is taken relative to. -/
noncomputable abbrev ExactField.realFrom (read : Single → ℝ) (peak : List ℝ → ℝ) : ExactField ℝ :=
  { ExactField.real read with peak := peak }

/-! ## Functions of the logits -/

namespace CrossEntropy

variable {rows classes r q : Nat} {x : Nat → ℝ} {X T : List Nat → ℝ}

/-- The logarithm of what the exponentials of a row add up to. -/
noncomputable def norm (classes : Nat) (x : Nat → ℝ) : ℝ :=
  Real.log (∑ k ∈ range classes, Real.exp (x k))

/-- What the classes of a row are worth by their weights. -/
noncomputable def row (classes : Nat) (x t : Nat → ℝ) : ℝ :=
  ∑ j ∈ range classes, t j * (norm classes x - x j)

/-- The mean over the rows. -/
noncomputable def mean (rows classes : Nat) (X T : List Nat → ℝ) : ℝ :=
  (∑ r ∈ range rows, row classes (fun k => X [r, k]) fun k => T [r, k]) / rows

theorem sum_exp_pos (hclasses : 0 < classes) (x : Nat → ℝ) :
    0 < ∑ k ∈ range classes, Real.exp (x k) :=
  Finset.sum_pos (fun k _ => Real.exp_pos (x k))
    (Finset.nonempty_range_iff.mpr (Nat.ne_of_gt hclasses))

/-- What is subtracted before the exponentials are taken is added again. -/
theorem norm_shift (hclasses : 0 < classes) (x : Nat → ℝ) (m : ℝ) :
    m + Real.log (∑ k ∈ range classes, Real.exp (x k - m)) = norm classes x := by
  have hpos := sum_exp_pos hclasses x
  simp only [Real.exp_sub, ← Finset.sum_div]
  rw [Real.log_div hpos.ne' (Real.exp_pos m).ne', Real.log_exp, norm]
  ring

theorem share_shift (classes : Nat) (x : Nat → ℝ) (m : ℝ) (q : Nat) :
    Real.exp (x q - m) / ∑ k ∈ range classes, Real.exp (x k - m) =
      Real.exp (x q) / ∑ k ∈ range classes, Real.exp (x k) := by
  simp only [Real.exp_sub, ← Finset.sum_div]
  rw [div_div_div_cancel_right₀ (Real.exp_pos m).ne']

theorem hasDerivAt_norm (hq : q < classes) (x : Nat → ℝ) :
    HasDerivAt (fun t => norm classes (update x q t))
      (Real.exp (x q) / ∑ k ∈ range classes, Real.exp (x k)) (x q) := by
  have hsum : HasDerivAt (fun t => ∑ k ∈ range classes, Real.exp (update x q t k))
      (Real.exp (x q)) (x q) := by
    have hterms := HasDerivAt.fun_sum fun k (_ : k ∈ range classes) =>
      (hasDerivAt_update x q k).exp
    simp only [Function.update_eq_self, mul_ite, mul_one, mul_zero] at hterms
    rwa [Finset.sum_ite_eq' _ q, if_pos (Finset.mem_range.mpr hq)] at hterms
  have hlog := hsum.log (by
    rw [Function.update_eq_self]
    exact (sum_exp_pos (Nat.zero_lt_of_lt hq) x).ne')
  rwa [Function.update_eq_self] at hlog

/-- The derivative by a logit: its share of the exponentials by the weight of its row, less its own
weight. -/
theorem hasDerivAt_row (hq : q < classes) (x t : Nat → ℝ) :
    HasDerivAt (fun s => row classes (update x q s) t)
      (Real.exp (x q) / (∑ k ∈ range classes, Real.exp (x k)) * (∑ j ∈ range classes, t j) - t q)
      (x q) := by
  have hterms := HasDerivAt.fun_sum fun j (_ : j ∈ range classes) =>
    ((hasDerivAt_norm hq x).fun_sub (hasDerivAt_update x q j)).const_mul (t j)
  refine hterms.congr_deriv ?_
  simp only [mul_sub, Finset.sum_sub_distrib, mul_ite, mul_one, mul_zero]
  rw [← Finset.sum_mul, Finset.sum_ite_eq' _ q, if_pos (Finset.mem_range.mpr hq), mul_comm]

theorem update_row_self (X : List Nat → ℝ) (r q : Nat) (s : ℝ) :
    (fun k => update X [r, q] s [r, k]) = update (fun k => X [r, k]) q s := by
  funext k
  by_cases hk : k = q
  · simp [hk]
  · simp [hk]

theorem update_row_of_ne {r' : Nat} (h : r' ≠ r) (X : List Nat → ℝ) (q : Nat) (s : ℝ) :
    (fun k => update X [r, q] s [r', k]) = fun k => X [r', k] := by
  funext k
  simp [h]

/-- An entry is in one row only. -/
theorem hasDerivAt_mean (hr : r < rows) (hq : q < classes) (X T : List Nat → ℝ) :
    HasDerivAt (fun s => mean rows classes (update X [r, q] s) T)
      ((Real.exp (X [r, q]) / (∑ k ∈ range classes, Real.exp (X [r, k])) *
        (∑ j ∈ range classes, T [r, j]) - T [r, q]) / rows) (X [r, q]) := by
  have hrow : ∀ r' ∈ range rows, HasDerivAt
      (fun s => row classes (fun k => update X [r, q] s [r', k]) fun k => T [r', k])
      (if r' = r then Real.exp (X [r, q]) / (∑ k ∈ range classes, Real.exp (X [r, k])) *
        (∑ j ∈ range classes, T [r, j]) - T [r, q] else 0) (X [r, q]) := by
    intro r' _
    by_cases h : r' = r
    · subst h
      simp only [update_row_self, if_true]
      exact hasDerivAt_row hq (fun k => X [r', k]) fun k => T [r', k]
    · simp only [update_row_of_ne h, if_neg h]
      exact hasDerivAt_const _ _
  have hsum := HasDerivAt.fun_sum hrow
  rw [Finset.sum_ite_eq' _ r, if_pos (Finset.mem_range.mpr hr)] at hsum
  exact hsum.div_const _

end CrossEntropy

/-! ## Arrays -/

/-- Terms that are 0 may be left out. -/
theorem sum_filterMap {ι M : Type} [AddMonoid M] (skip : ι → Bool) (f : ι → M)
    (h : ∀ i, skip i = true → f i = 0) (is : List ι) :
    (is.filterMap fun i => if skip i then none else some (f i)).sum = (is.map f).sum := by
  induction is with
  | nil => rfl
  | cons i is ih =>
    rw [List.map_cons, List.sum_cons, ← ih, List.filterMap_cons]
    by_cases hi : skip i = true
    · simp [hi, h i hi]
    · simp [hi]

namespace DenseArray

open CrossEntropy (norm share_shift)

variable (read : Single → ℝ) (peak : List ℝ → ℝ) {rows classes r q : Nat}

theorem rowSum_map_range (n : Nat) (f : Nat → ℝ) :
    rowSum ((List.range n).map f) = ∑ k ∈ range n, f k := List.sum_eq_foldl.symm

theorem rowSum_exp (x : Nat → ℝ) (m : ℝ) : letI := ExactField.realFrom read peak
    rowSum (((List.range classes).map x).map fun v => Scalar.exp (v - m)) =
      ∑ k ∈ range classes, Real.exp (x k - m) := by
  rw [List.map_map]
  exact rowSum_map_range classes _

theorem rowEntropy_real (hclasses : 0 < classes) (x t : Nat → ℝ) :
    letI := ExactField.realFrom read peak
    rowEntropy ((List.range classes).map x) ((List.range classes).map t) =
      CrossEntropy.row classes x t := by
  let _ := ExactField.realFrom read peak
  have hnorm : ∀ m, m + Scalar.log (rowSum (((List.range classes).map x).map fun l =>
      Scalar.exp (l - m))) = norm classes x := by
    intro m
    rw [rowSum_exp]
    exact CrossEntropy.norm_shift hclasses x m
  unfold rowEntropy
  dsimp only
  rw [hnorm, List.zip_map', List.filterMap_map]
  refine List.sum_eq_foldl.symm.trans (sum_filterMap (fun j => Scalar.isZero (t j))
    (fun j => t j * (norm classes x - x j)) ?_ _)
  intro j hj
  rw [of_decide_eq_true hj, zero_mul]

theorem softmaxRow_real (x : Nat → ℝ) : letI := ExactField.realFrom read peak
    softmaxRow ((List.range classes).map x) = (List.range classes).map fun q =>
      Real.exp (x q) / ∑ k ∈ range classes, Real.exp (x k) := by
  let _ := ExactField.realFrom read peak
  unfold softmaxRow
  dsimp only
  rw [rowSum_exp, List.map_map, List.map_map]
  exact List.map_congr_left fun q _ => share_shift classes x _ q

variable {logits targets g : DenseArray ℝ}

/-- The loss is the mean over the rows, whatever number the rows are taken relative to. -/
theorem crossEntropy_real (hlogits : logits.extents = [rows, classes])
    (htargets : targets.extents = [rows, classes]) (hrows : 0 < rows) (hclasses : 0 < classes) :
    letI := ExactField.realFrom read peak
    logits.crossEntropy targets = CrossEntropy.mean rows classes logits.get targets.get := by
  let _ := ExactField.realFrom read peak
  have hcount : logits.rowCount = rows := rowCount_of_pair hlogits hclasses
  unfold crossEntropy
  rw [hcount, ExactScalar.sumUpTo_eq_sum_range, Nat.max_eq_left hrows, ExactField.ofNat_eq]
  refine congrArg (· / (rows : ℝ)) (Finset.sum_congr rfl fun r _ => ?_)
  rw [row_eq_map hlogits, row_eq_map htargets]
  exact rowEntropy_real read peak hclasses _ _

theorem get_crossEntropyGradient (hlogits : logits.extents = [rows, classes])
    (htargets : targets.extents = [rows, classes]) (hg : g.extents = []) (hr : r < rows)
    (hq : q < classes) : letI := ExactField.realFrom read peak
    (logits.crossEntropyGradient targets g).get [r, q] = g.get [] *
      ((Real.exp (logits.get [r, q]) / (∑ k ∈ range classes, Real.exp (logits.get [r, k])) *
        (∑ j ∈ range classes, targets.get [r, j]) - targets.get [r, q]) / rows) := by
  let _ := ExactField.realFrom read peak
  have hcount : logits.rowCount = rows := rowCount_of_pair hlogits (Nat.zero_lt_of_lt hq)
  have hpos := Nat.zero_lt_of_lt hq
  have hlt : r * classes + q < logits.extents.size := by
    rw [hlogits]
    simpa [Extents.ravel, Extents.size] using
      Extents.ravel_lt_size (s := [rows, classes]) (i := [r, q]) ⟨hr, hq, trivial⟩
  have hdiv : (r * classes + q) / classes = r := by
    rw [Nat.add_comm, Nat.add_mul_div_right _ _ hpos, Nat.div_eq_of_lt hq, Nat.zero_add]
  have hmod : (r * classes + q) % classes = q := by
    rw [Nat.add_comm, Nat.add_mul_mod_self_right, Nat.mod_eq_of_lt hq]
  have hextents : (logits.crossEntropyGradient targets g).extents = [rows, classes] := hlogits
  have hsum : g.sum = g.get [] := by
    rw [DenseArray.sum_eq_sum_box, hg, Extents.sum_box_nil]
  rw [get_pair hextents, crossEntropyGradient, entry_ofFn, dif_pos hlt]
  simp only [width_of_concat (s := [rows]) hlogits, hdiv, hmod, hcount, row_eq_map hlogits,
    row_eq_map htargets, softmaxRow_real, Array.getD_eq_getD_getElem?, Array.getElem?_ofFn,
    dif_pos hr, Option.getD_some, rowSum_map_range, List.getElem?_toArray, List.getElem?_map,
    List.getElem?_range hq, Option.map_some]
  rw [← get_pair htargets, hsum, Nat.max_eq_left (Nat.one_le_of_lt hr), ExactField.ofNat_eq]
  ring

/-- What goes back to a logit is the derivative of what the loss is worth. -/
theorem hasDerivAt_crossEntropyGradient (hlogits : logits.extents = [rows, classes])
    (htargets : targets.extents = [rows, classes]) (hg : g.extents = []) (hr : r < rows)
    (hq : q < classes) : letI := ExactField.realFrom read peak
    HasDerivAt (fun t => g.get [] *
      CrossEntropy.mean rows classes (update logits.get [r, q] t) targets.get)
      ((logits.crossEntropyGradient targets g).get [r, q]) (logits.get [r, q]) := by
  rw [get_crossEntropyGradient read peak hlogits htargets hg hr hq]
  exact (CrossEntropy.hasDerivAt_mean hr hq logits.get targets.get).const_mul _

end DenseArray

end NeuralNet
