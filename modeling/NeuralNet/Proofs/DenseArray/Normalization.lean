import Mathlib.Algebra.BigOperators.Field
import Mathlib.Tactic.Ring
import NeuralNet.Proofs.DenseArray.Columns
import NeuralNet.Proofs.DenseArray.Sums
import NeuralNet.Proofs.Extents

/-!
# Normalization channel by channel

The mean and the variance of a channel are those of the values whose index has the channel on its
axis, and of no others. A value is normalized by those of its own channel.
-/

namespace NeuralNet

open Finset (range)

/-! ## Channels -/

namespace Extents

/-- The indices of one channel. -/
def channel (s : Extents) (axis c : Nat) : Finset (List Nat) := {i ∈ s.box | i.getD axis 0 = c}

variable {s : Extents} {axis c : Nat} {i : List Nat}

theorem mem_channel : i ∈ s.channel axis c ↔ s.Contains i ∧ i.getD axis 0 = c := by
  rw [channel, Finset.mem_filter, mem_box]

theorem nonempty_channel (hsize : ∀ n ∈ s, n ≠ 0) (haxis : axis < s.length)
    (hc : c < s.getD axis 0) : (s.channel axis c).Nonempty := by
  refine ⟨(List.replicate s.length 0).set axis c, mem_channel.mpr ⟨contains_iff_getD.mpr
    ⟨by simp, fun k hk => ?_⟩, by simp [List.getD_eq_getElem?_getD, haxis]⟩⟩
  by_cases hkaxis : axis = k
  · subst hkaxis
    simpa [List.getD_eq_getElem?_getD, haxis] using hc
  · have hpos := hsize s[k] (List.getElem_mem hk)
    simp [List.getD_eq_getElem?_getD, hkaxis, hk]
    omega

theorem sum_of_channel {M : Type} [AddCommMonoid M] (f : List Nat → Nat → M) :
    ∑ i ∈ s.channel axis c, f i (i.getD axis 0) = ∑ i ∈ s.channel axis c, f i c :=
  Finset.sum_congr rfl fun i hi => by rw [(mem_channel.mp hi).2]

section Rows

variable {lead : List Nat} (hs : swapLast axis s = lead ++ [s.getD axis 0])

include hs

/-- With its axis exchanged with the last one, an index of a channel is a row and the channel. -/
theorem row_of_channel (haxis : axis < s.length) (hi : i ∈ s.channel axis c) :
    swapLast axis i = (swapLast axis i).dropLast ++ [c] ∧
      Contains lead (swapLast axis i).dropLast := by
  obtain ⟨hmem, rfl⟩ := mem_channel.mp hi
  have hconcat := swapLast_eq_concat (l := i) (length_of_contains hmem ▸ haxis)
  have hcontains := contains_swapLast haxis hmem
  rw [hs, hconcat] at hcontains
  exact ⟨hconcat, (contains_concat.mp hcontains).1⟩

theorem channel_of_row (haxis : axis < s.length) (hc : c < s.getD axis 0) {l : List Nat}
    (hl : Contains lead l) :
    axis < (l ++ [c]).length ∧ swapLast axis (l ++ [c]) ∈ s.channel axis c := by
  have hlen : (swapLast axis s).length = s.length := length_swapLast axis s
  have hmoved : Contains (swapLast axis s) (l ++ [c]) := hs ▸ contains_concat.mpr ⟨hl, hc⟩
  have hlt : axis < (l ++ [c]).length := by rwa [length_of_contains hmoved, hlen]
  have hcontains := contains_swapLast (hlen.symm ▸ haxis) hmoved
  rw [swapLast_swapLast haxis] at hcontains
  refine ⟨hlt, mem_channel.mpr ⟨hcontains, ?_⟩⟩
  rw [getD_swapLast_self hlt]
  simp

end Rows

/-- The cells of a channel are a column of the matrix. -/
theorem sum_channel {M : Type} [AddCommMonoid M] (haxis : axis < s.length) (hc : c < s.getD axis 0)
    (f : List Nat → M) : ∑ i ∈ s.channel axis c, f (s.cell axis i) =
      ∑ r ∈ range (DenseArray.matrixRows (swapLast axis s) (s.getD axis 0)), f [r, c] := by
  have hs := swapLast_eq_concat haxis
  obtain ⟨lead, hlead⟩ : ∃ lead, (swapLast axis s).dropLast = lead := ⟨_, rfl⟩
  rw [hlead] at hs
  rw [hs, DenseArray.matrixRows_of_ne_zero lead (Nat.ne_zero_of_lt hc)]
  calc ∑ i ∈ s.channel axis c, f (s.cell axis i)
      = ∑ l ∈ box lead, f [ravel lead l, c] := by
        refine Finset.sum_nbij' (fun i => (swapLast axis i).dropLast)
          (fun l => swapLast axis (l ++ [c]))
          (fun i hi => mem_box.mpr (row_of_channel hs haxis hi).2)
          (fun l hl => (channel_of_row hs haxis hc (mem_box.mp hl)).2) (fun i hi => ?_)
          (fun l hl => ?_) fun i hi => ?_
        · rw [← (row_of_channel hs haxis hi).1, swapLast_swapLast]
          rw [length_of_contains (mem_channel.mp hi).1]
          exact haxis
        · rw [swapLast_swapLast (channel_of_row hs haxis hc (mem_box.mp hl)).1,
            List.dropLast_concat]
        · rw [cell, hlead, (mem_channel.mp hi).2]
    _ = ∑ r ∈ range (size lead), f [r, c] := sum_box_ravel lead fun r => f [r, c]

theorem card_channel (haxis : axis < s.length) (hc : c < s.getD axis 0) :
    (s.channel axis c).card = DenseArray.matrixRows (swapLast axis s) (s.getD axis 0) := by
  have hones := sum_channel haxis hc fun _ => 1
  rwa [← Finset.card_eq_sum_ones, ← Finset.card_eq_sum_ones, Finset.card_range] at hones

end Extents

/-! ## Statistics -/

section

variable {α : Type} [Field α]

/-- The mean of one channel of values. -/
def Extents.channelMean (s : Extents) (axis : Nat) (x : List Nat → α) (c : Nat) : α :=
  (∑ i ∈ s.channel axis c, x i) / (s.channel axis c).card

/-- The mean square distance of one channel from its mean. -/
def Extents.channelVariance (s : Extents) (axis : Nat) (x : List Nat → α) (c : Nat) : α :=
  (∑ i ∈ s.channel axis c, (x i - s.channelMean axis x c) ^ 2) / (s.channel axis c).card

end

namespace DenseArray

/-- The sum along a column is that of the values of its channel. -/
theorem InRows.sum {α : Type} [AddCommMonoid α] {rows : DenseArray α} {s : Extents} {axis c : Nat}
    {x : List Nat → α} (h : InRows rows s axis x) (haxis : axis < s.length)
    (hc : c < s.getD axis 0) : (rows.sumAxis 0).get [c] = ∑ i ∈ s.channel axis c, x i := by
  have hextents : rows.extents.eraseIdx 0 = [s.getD axis 0] := by
    rw [h.extents]
    rfl
  have hcontains : Extents.Contains (rows.extents.eraseIdx 0) [c] := hextents ▸ ⟨hc, trivial⟩
  rw [sumAxis, get_generate hcontains, Scalar.sumUpTo_eq_sum_range, h.extents]
  refine (Extents.sum_channel haxis hc rows.get).symm.trans (Finset.sum_congr rfl fun i hi => ?_)
  exact h.get i (Extents.mem_channel.mp hi).1

theorem InRows.extents_sum {α : Type} [Zero α] [Add α] {rows : DenseArray α} {s : Extents}
    {axis : Nat} {x : List Nat → α} (h : InRows rows s axis x) :
    (rows.sumAxis 0).extents = [s.getD axis 0] := by
  rw [sumAxis, extents_generate, h.extents]
  rfl

end DenseArray

namespace Normalized

open DenseArray (InRows inRows_toRows)

variable {α : Type} [ExactField α] {x rows mean variance : DenseArray α} {s : Extents}
  {axis c : Nat} {i : List Nat} {v : List Nat → α}

/-- What counts the values of a column. -/
theorem columnCount_eq (h : InRows rows s axis v) (hsize : ∀ n ∈ s, n ≠ 0) (haxis : axis < s.length)
    (hc : c < s.getD axis 0) : columnCount rows = ((s.channel axis c).card : α) := by
  have hcard := Extents.card_channel haxis hc
  have hpos := (Extents.nonempty_channel hsize haxis hc).card_pos
  rw [columnCount, ExactField.ofNat_eq, h.extents, DenseArray.columnExtents, List.headD_cons,
    ← hcard, Nat.max_eq_left hpos]

theorem get_batchMean (h : InRows rows s axis v) (hsize : ∀ n ∈ s, n ≠ 0) (haxis : axis < s.length)
    (hc : c < s.getD axis 0) : (batchMean rows).get [c] = s.channelMean axis v c := by
  have hcontains : (rows.sumAxis 0).extents.Contains [c] := h.extents_sum ▸ ⟨hc, trivial⟩
  rw [batchMean, DenseArray.get_map _ hcontains, h.sum haxis hc, columnCount_eq h hsize haxis hc,
    Extents.channelMean]

theorem get_batchVariance (h : InRows rows s axis v) (hsize : ∀ n ∈ s, n ≠ 0)
    (haxis : axis < s.length) (hc : c < s.getD axis 0) (hextents : mean.extents = [s.getD axis 0])
    (hmean : mean.get [c] = s.channelMean axis v c) :
    (batchVariance rows mean).get [c] = s.channelVariance axis v c := by
  have hsquares := (h.withRow haxis (· - ·) hextents).map haxis fun d => d * d
  have hcontains : (((rows.withRow (· - ·) mean).map fun d => d * d).sumAxis 0).extents.Contains
      [c] := hsquares.extents_sum ▸ ⟨hc, trivial⟩
  rw [batchVariance, DenseArray.get_map _ hcontains, hsquares.sum haxis hc,
    columnCount_eq h hsize haxis hc, Extents.channelVariance]
  congr 1
  apply Finset.sum_congr rfl
  intro i hi
  rw [(Extents.mem_channel.mp hi).2, hmean]
  ring

theorem extents_batchMean (h : InRows rows s axis v) :
    (batchMean rows).extents = [s.getD axis 0] := h.extents_sum

theorem extents_batchVariance (h : InRows rows s axis v) (mean : DenseArray α) :
    (batchVariance rows mean).extents = [s.getD axis 0] := by
  change (((rows.withRow (· - ·) mean).map fun d => d * d).extents.eraseIdx 0) = _
  exact congrArg (List.eraseIdx · 0) h.extents

/-! ## Outputs and gradients -/

/-- Values normalized by their own statistics. -/
def ofBatch {α : Type} [Scalar α] (x gamma : DenseArray α) (axis : Nat) (epsilon : α) :
    Normalized α :=
  let rows := x.toRows axis
  let mean := batchMean rows
  of x mean (batchVariance rows mean) gamma axis epsilon true

section

variable {α : Type} [Scalar α] {x mean variance gamma beta : DenseArray α} {s : Extents}
  {axis c : Nat} {i : List Nat} {epsilon : α} {training : Bool}

theorem get_inverse (hvariance : variance.extents.Contains [c]) :
    (of x mean variance gamma axis epsilon training).inverse.get [c] =
      1 / Scalar.sqrt (variance.get [c] + epsilon) := DenseArray.get_map _ hvariance

variable (hx : x.extents = s) (haxis : axis < s.length) (hmean : mean.extents = [s.getD axis 0])
  (hvariance : variance.extents = [s.getD axis 0])

include hx haxis hmean hvariance

/-- In its row each value stands less the mean of its column, by the spread of its column. -/
theorem inRows_standard : InRows (of x mean variance gamma axis epsilon training).standard s axis
    fun i => (x.get i - mean.get [i.getD axis 0]) *
      (of x mean variance gamma axis epsilon training).inverse.get [i.getD axis 0] :=
  ((inRows_toRows hx haxis).withRow haxis (· - ·) hmean).withRow haxis (· * ·) hvariance

theorem get_output (hgamma : gamma.extents = [s.getD axis 0]) (hbeta : beta.extents = [s.getD axis 0])
    (hi : s.Contains i) : ((of x mean variance gamma axis epsilon training).output beta).get i =
      (x.get i - mean.get [i.getD axis 0]) *
        (of x mean variance gamma axis epsilon training).inverse.get [i.getD axis 0] *
        gamma.get [i.getD axis 0] + beta.get [i.getD axis 0] := by
  subst hx
  exact (((inRows_standard rfl haxis hmean hvariance).withRow haxis (· * ·) hgamma).withRow haxis
    (· + ·) hbeta).get_fromRows haxis hi

end

section

variable {mean variance gamma beta g : DenseArray α} {epsilon : α} {training : Bool}

/-- A value less the mean of its channel over the spread of its channel, scaled and shifted. -/
theorem get_output_exact (hx : x.extents = s) (haxis : axis < s.length)
    (hmean : mean.extents = [s.getD axis 0]) (hvariance : variance.extents = [s.getD axis 0])
    (hgamma : gamma.extents = [s.getD axis 0]) (hbeta : beta.extents = [s.getD axis 0])
    (hi : s.Contains i) : ((of x mean variance gamma axis epsilon training).output beta).get i =
      gamma.get [i.getD axis 0] * (x.get i - mean.get [i.getD axis 0]) /
        Scalar.sqrt (variance.get [i.getD axis 0] + epsilon) + beta.get [i.getD axis 0] := by
  have hcontains : variance.extents.Contains [i.getD axis 0] :=
    hvariance ▸ ⟨Extents.getD_lt_of_contains haxis hi, trivial⟩
  rw [get_output hx haxis hmean hvariance hgamma hbeta hi, get_inverse hcontains]
  ring

variable (n : Normalized α) (hg : g.extents = s) (hstandard : InRows n.standard s n.axis v)
  (haxis : n.axis < s.length)

include hg haxis

theorem get_toBeta (hc : c < s.getD n.axis 0) :
    (n.toBeta g).get [c] = ∑ i ∈ s.channel n.axis c, g.get i :=
  (inRows_toRows hg haxis).sum haxis hc

include hstandard

theorem get_toGamma (hc : c < s.getD n.axis 0) :
    (n.toGamma g).get [c] = ∑ i ∈ s.channel n.axis c, g.get i * v i :=
  ((inRows_toRows hg haxis).zipWith haxis (· * ·) hstandard).sum haxis hc

/-- In training, from what arrives at a value is taken what the mean and the variance owe to it. -/
theorem get_toInput (htraining : n.training = true) (hn : n.extents = s)
    (hscale : n.scale.extents = [s.getD n.axis 0])
    (hinverse : n.inverse.extents = [s.getD n.axis 0]) (hi : i ∈ s.channel n.axis c) :
    (n.toInput g).get i =
      (g.get i * n.scale.get [c] * n.count - ∑ j ∈ s.channel n.axis c, g.get j * n.scale.get [c] -
        v i * ∑ j ∈ s.channel n.axis c, g.get j * n.scale.get [c] * v j) *
        n.inverse.get [c] / n.count := by
  subst hn
  obtain ⟨hmem, rfl⟩ := Extents.mem_channel.mp hi
  have hc := Extents.getD_lt_of_contains haxis hmem
  have hscaled := (inRows_toRows hg haxis).withRow haxis (· * ·) hscale
  have hproducts := hscaled.zipWith haxis (· * ·) hstandard
  have hcentred := (hscaled.map haxis (· * n.count)).withRow haxis (· - ·) hscaled.extents_sum
  have hspread := hstandard.withRow haxis (· * ·) hproducts.extents_sum
  have hrest := hcentred.zipWith haxis (· - ·) hspread
  have hresult := ((hrest.withRow haxis (· * ·) hinverse).map haxis (· / n.count)).get_fromRows haxis
    hmem
  have htotal := (hscaled.sum haxis hc).trans
    (Extents.sum_of_channel fun j k => g.get j * n.scale.get [k])
  have hmoment := (hproducts.sum haxis hc).trans
    (Extents.sum_of_channel fun j k => g.get j * n.scale.get [k] * v j)
  rw [htotal, hmoment] at hresult
  unfold toInput
  rw [if_pos htraining]
  exact hresult

end

/-! ## Training -/

section

variable {gamma beta stored batch g : DenseArray α} {epsilon momentum : α} (hx : x.extents = s)
  (hsize : ∀ n ∈ s, n ≠ 0) (haxis : axis < s.length)

theorem get_blend (hstored : stored.extents = [s.getD axis 0])
    (hbatch : batch.extents = [s.getD axis 0]) (hc : c < s.getD axis 0) :
    (blend momentum stored batch).get [c] =
      momentum * stored.get [c] + (1 - momentum) * batch.get [c] :=
  DenseArray.get_zipWith _ hstored hbatch ⟨hc, trivial⟩

include hx hsize haxis

theorem get_inverse_ofBatch (hc : c < s.getD axis 0) :
    (ofBatch x gamma axis epsilon).inverse.get [c] =
      1 / Scalar.sqrt (s.channelVariance axis x.get c + epsilon) := by
  have hrows := inRows_toRows hx haxis
  have hmean := get_batchMean hrows hsize haxis hc
  have hcontains : (batchVariance (x.toRows axis) (batchMean (x.toRows axis))).extents.Contains
      [c] := (extents_batchVariance hrows _) ▸ ⟨hc, trivial⟩
  rw [ofBatch, get_inverse hcontains,
    get_batchVariance hrows hsize haxis hc (extents_batchMean hrows) hmean]

theorem inRows_ofBatch : InRows (ofBatch x gamma axis epsilon).standard s axis fun i =>
    (x.get i - s.channelMean axis x.get (i.getD axis 0)) *
      (1 / Scalar.sqrt (s.channelVariance axis x.get (i.getD axis 0) + epsilon)) := by
  have hrows := inRows_toRows hx haxis
  refine (inRows_standard hx haxis (extents_batchMean hrows)
    (extents_batchVariance hrows _)).congr fun i hi => ?_
  have hc := Extents.getD_lt_of_contains haxis hi
  rw [get_batchMean hrows hsize haxis hc]
  exact congrArg _ (get_inverse_ofBatch hx hsize haxis hc)

theorem get_output_ofBatch (hgamma : gamma.extents = [s.getD axis 0])
    (hbeta : beta.extents = [s.getD axis 0]) (hi : s.Contains i) :
    ((ofBatch x gamma axis epsilon).output beta).get i =
      gamma.get [i.getD axis 0] * (x.get i - s.channelMean axis x.get (i.getD axis 0)) /
          Scalar.sqrt (s.channelVariance axis x.get (i.getD axis 0) + epsilon) +
        beta.get [i.getD axis 0] := by
  have hrows := inRows_toRows hx haxis
  have hc := Extents.getD_lt_of_contains haxis hi
  have hmean := get_batchMean hrows hsize haxis hc
  rw [ofBatch, get_output_exact hx haxis (extents_batchMean hrows) (extents_batchVariance hrows _)
    hgamma hbeta hi, hmean,
    get_batchVariance hrows hsize haxis hc (extents_batchMean hrows) hmean]

theorem get_toGamma_ofBatch (hg : g.extents = s) (hc : c < s.getD axis 0) :
    ((ofBatch x gamma axis epsilon).toGamma g).get [c] = ∑ i ∈ s.channel axis c, g.get i *
      ((x.get i - s.channelMean axis x.get c) *
        (1 / Scalar.sqrt (s.channelVariance axis x.get c + epsilon))) := by
  rw [get_toGamma (ofBatch x gamma axis epsilon) hg (inRows_ofBatch hx hsize haxis) haxis hc]
  exact Extents.sum_of_channel fun i k => g.get i * ((x.get i - s.channelMean axis x.get k) *
    (1 / Scalar.sqrt (s.channelVariance axis x.get k + epsilon)))

theorem get_toInput_ofBatch (hgamma : gamma.extents = [s.getD axis 0]) (hg : g.extents = s)
    (hi : i ∈ s.channel axis c) :
    let σ : α := Scalar.sqrt (s.channelVariance axis x.get c + epsilon)
    let m : α := (s.channel axis c).card
    let standard j := (x.get j - s.channelMean axis x.get c) * (1 / σ)
    ((ofBatch x gamma axis epsilon).toInput g).get i =
      (g.get i * gamma.get [c] * m - ∑ j ∈ s.channel axis c, g.get j * gamma.get [c] -
        standard i * ∑ j ∈ s.channel axis c, g.get j * gamma.get [c] * standard j) *
          (1 / σ) / m := by
  intro σ m standard
  have hrows := inRows_toRows hx haxis
  have hc : c < s.getD axis 0 := by
    obtain ⟨hmem, rfl⟩ := Extents.mem_channel.mp hi
    exact Extents.getD_lt_of_contains haxis hmem
  have hgradient := get_toInput (ofBatch x gamma axis epsilon) hg (inRows_ofBatch hx hsize haxis)
    haxis rfl hx hgamma (extents_batchVariance hrows (batchMean (x.toRows axis))) hi
  have hcount : (ofBatch x gamma axis epsilon).count = m := columnCount_eq hrows hsize haxis hc
  have hproduct : ∑ j ∈ s.channel axis c, g.get j * gamma.get [c] *
      ((x.get j - s.channelMean axis x.get (j.getD axis 0)) *
        (1 / Scalar.sqrt (s.channelVariance axis x.get (j.getD axis 0) + epsilon))) =
        ∑ j ∈ s.channel axis c, g.get j * gamma.get [c] * standard j :=
    Extents.sum_of_channel fun j k => g.get j * gamma.get [c] *
      ((x.get j - s.channelMean axis x.get k) *
        (1 / Scalar.sqrt (s.channelVariance axis x.get k + epsilon)))
  have haxis' : (ofBatch x gamma axis epsilon).axis = axis := rfl
  have hscale : (ofBatch x gamma axis epsilon).scale = gamma := rfl
  rw [haxis', hscale, hcount, (Extents.mem_channel.mp hi).2, hproduct,
    get_inverse_ofBatch hx hsize haxis hc] at hgradient
  exact hgradient

end

end Normalized

end NeuralNet
