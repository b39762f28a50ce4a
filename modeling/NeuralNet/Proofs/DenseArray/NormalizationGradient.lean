import Mathlib
import NeuralNet.Proofs.DenseArray.Normalization
import NeuralNet.Proofs.Number.Real

/-!
# The gradient of normalization

In training the mean and the variance of a channel depend on every value of the channel. The
derivative goes through both.
-/

namespace NeuralNet

open Finset (range)
open Function (update)

theorem hasDerivAt_update {ι : Type} [DecidableEq ι] (x : ι → ℝ) (q i : ι) :
    HasDerivAt (fun t => update x q t i) (if i = q then 1 else 0) (x q) := by
  by_cases h : i = q
  · subst h
    simpa using hasDerivAt_id' (x i)
  · simpa [h] using hasDerivAt_const (x q) (x i)

namespace Extents

variable {s : Extents} {axis c : Nat} {x : List Nat → ℝ} {q i : List Nat}

/-- The values of another channel are not in the mean. -/
theorem channelMean_update (hq : q ∉ s.channel axis c) (t : ℝ) :
    s.channelMean axis (update x q t) c = s.channelMean axis x c := by
  rw [channelMean, channelMean, Finset.sum_update_of_notMem hq]

theorem channelVariance_update (hq : q ∉ s.channel axis c) (t : ℝ) :
    s.channelVariance axis (update x q t) c = s.channelVariance axis x c := by
  rw [channelVariance, channelVariance, channelMean_update hq]
  congr 1
  apply Finset.sum_congr rfl
  intro i hi
  have hne : i ≠ q := fun h => hq (h ▸ hi)
  rw [Function.update_of_ne hne]

theorem hasDerivAt_channelMean (hq : q ∈ s.channel axis c) :
    HasDerivAt (fun t => s.channelMean axis (update x q t) c) (1 / (s.channel axis c).card)
      (x q) := by
  have hsum := HasDerivAt.fun_sum fun i (_ : i ∈ s.channel axis c) => hasDerivAt_update x q i
  rw [Finset.sum_ite_eq' _ q, if_pos hq] at hsum
  exact hsum.div_const _

theorem sum_sub_channelMean (hq : q ∈ s.channel axis c) :
    ∑ i ∈ s.channel axis c, (x i - s.channelMean axis x c) = 0 := by
  have hcard : ((s.channel axis c).card : ℝ) ≠ 0 :=
    Nat.cast_ne_zero.mpr (Finset.card_ne_zero_of_mem hq)
  rw [Finset.sum_sub_distrib, Finset.sum_const, nsmul_eq_mul, channelMean]
  field_simp
  ring

theorem hasDerivAt_channelVariance (hq : q ∈ s.channel axis c) :
    HasDerivAt (fun t => s.channelVariance axis (update x q t) c)
      (2 * (x q - s.channelMean axis x c) / (s.channel axis c).card) (x q) := by
  have hsquare : ∀ i ∈ s.channel axis c, HasDerivAt
      (fun t => (update x q t i - s.channelMean axis (update x q t) c) ^ 2)
      (2 * (x i - s.channelMean axis x c) *
        ((if i = q then 1 else 0) - 1 / (s.channel axis c).card)) (x q) := by
    intro i _
    have hpow := ((hasDerivAt_update x q i).fun_sub (hasDerivAt_channelMean hq)).fun_pow 2
    rw [Function.update_eq_self] at hpow
    exact hpow.congr_deriv (by norm_num)
  have hsum : ∑ i ∈ s.channel axis c, 2 * (x i - s.channelMean axis x c) *
      ((if i = q then 1 else 0) - 1 / (s.channel axis c).card) =
        2 * (x q - s.channelMean axis x c) := by
    have hsplit : ∀ i, 2 * (x i - s.channelMean axis x c) *
        ((if i = q then 1 else 0) - 1 / ((s.channel axis c).card : ℝ)) =
        (if i = q then 2 * (x i - s.channelMean axis x c) else 0) -
          2 / (s.channel axis c).card * (x i - s.channelMean axis x c) := by
      intro i
      split <;> ring
    rw [Finset.sum_congr rfl fun i _ => hsplit i, Finset.sum_sub_distrib, Finset.sum_ite_eq' _ q,
      if_pos hq, ← Finset.mul_sum, sum_sub_channelMean hq, mul_zero, sub_zero]
  rw [← hsum]
  exact (HasDerivAt.fun_sum hsquare).div_const _

theorem channelVariance_nonneg (s : Extents) (axis : Nat) (x : List Nat → ℝ) (c : Nat) :
    0 ≤ s.channelVariance axis x c := by
  unfold channelVariance
  positivity

/-! ## Outputs -/

/-- The outputs in training, as a function of the inputs. -/
noncomputable def trained (s : Extents) (axis : Nat) (ε : ℝ) (γ β : Nat → ℝ) (x : List Nat → ℝ)
    (i : List Nat) : ℝ :=
  γ (i.getD axis 0) * (x i - s.channelMean axis x (i.getD axis 0)) /
    √(s.channelVariance axis x (i.getD axis 0) + ε) + β (i.getD axis 0)

variable {ε : ℝ} {γ β : Nat → ℝ} {g : List Nat → ℝ}

theorem hasDerivAt_spread (hε : 0 < ε) (hq : q ∈ s.channel axis c) :
    HasDerivAt (fun t => √(s.channelVariance axis (update x q t) c + ε))
      ((x q - s.channelMean axis x c) /
        ((s.channel axis c).card * √(s.channelVariance axis x c + ε))) (x q) := by
  have hpos : s.channelVariance axis x c + ε ≠ 0 := by
    have hnonneg := s.channelVariance_nonneg axis x c
    positivity
  have hsqrt := ((hasDerivAt_channelVariance hq).add_const ε).sqrt (by
    rwa [Function.update_eq_self])
  rw [Function.update_eq_self] at hsqrt
  refine hsqrt.congr_deriv ?_
  ring

/-- A value moves with another one of its channel, by the mean and by the spread. -/
theorem hasDerivAt_trained (hε : 0 < ε) (hq : q ∈ s.channel axis c) (hi : i ∈ s.channel axis c) :
    let σ := √(s.channelVariance axis x c + ε)
    let m : ℝ := (s.channel axis c).card
    HasDerivAt (fun t => s.trained axis ε γ β (update x q t) i)
      (γ c * (((if i = q then 1 else 0) - 1 / m) / σ -
        (x i - s.channelMean axis x c) * (x q - s.channelMean axis x c) / (m * σ ^ 3))) (x q) := by
  intro σ m
  obtain ⟨-, rfl⟩ := mem_channel.mp hi
  have hσ : σ ≠ 0 := by
    have hnonneg := s.channelVariance_nonneg axis x (i.getD axis 0)
    positivity
  have hm : m ≠ 0 := Nat.cast_ne_zero.mpr (Finset.card_ne_zero_of_mem hq)
  have hrule : ∀ δ p r : ℝ, (γ (i.getD axis 0) * (δ - 1 / m) * σ -
      γ (i.getD axis 0) * p * (r / (m * σ))) / σ ^ 2 =
        γ (i.getD axis 0) * ((δ - 1 / m) / σ - p * r / (m * σ ^ 3)) := by
    intro δ p r
    field_simp
  have hdifference := (hasDerivAt_update x q i).fun_sub (hasDerivAt_channelMean hq)
  have hquotient := ((hdifference.const_mul (γ (i.getD axis 0))).fun_div (hasDerivAt_spread hε hq) (by
    rwa [Function.update_eq_self])).add_const (β (i.getD axis 0))
  rw [Function.update_eq_self] at hquotient
  exact hquotient.congr_deriv (hrule _ _ _)

/-- The values of other channels stay. -/
theorem trained_update (hq : q ∉ s.channel axis (i.getD axis 0)) (hi : s.Contains i) (t : ℝ) :
    s.trained axis ε γ β (update x q t) i = s.trained axis ε γ β x i := by
  have hne : i ≠ q := by
    rintro rfl
    exact hq (mem_channel.mpr ⟨hi, rfl⟩)
  rw [trained, trained, channelMean_update hq, channelVariance_update hq, Function.update_of_ne hne]

/-- What the outputs of a channel send together to its value at `q`, where `d` are the distances from
the mean. -/
theorem sum_mul_derivative {C : Finset (List Nat)} {m : ℝ} (hq : q ∈ C) (hm : m ≠ 0) (a σ : ℝ)
    (d : List Nat → ℝ) :
    ∑ i ∈ C, g i * (a * (((if i = q then 1 else 0) - 1 / m) / σ - d i * d q / (m * σ ^ 3))) =
      (g q * a * m - ∑ i ∈ C, g i * a - d q * (1 / σ) * ∑ i ∈ C, g i * a * (d i * (1 / σ))) *
        (1 / σ) / m := by
  have hsplit : ∀ i, g i * (a * (((if i = q then 1 else 0) - 1 / m) / σ - d i * d q / (m * σ ^ 3))) =
      (if i = q then a / σ * g i else 0) - a / (m * σ) * g i -
        a * d q / (m * σ ^ 3) * (g i * d i) := by
    intro i
    split
    · ring
    · ring
  have hscaled : ∑ i ∈ C, g i * a = a * ∑ i ∈ C, g i := by
    rw [← Finset.sum_mul, mul_comm]
  have hmoment : ∑ i ∈ C, g i * a * (d i * (1 / σ)) = a / σ * ∑ i ∈ C, g i * d i := by
    rw [Finset.mul_sum]
    apply Finset.sum_congr rfl
    intro i _
    ring
  have hown : a / σ * g q = g q * a * m * (1 / σ) / m := by
    field_simp
  rw [Finset.sum_congr rfl fun i _ => hsplit i, Finset.sum_sub_distrib, Finset.sum_sub_distrib,
    Finset.sum_ite_eq' _ q, if_pos hq, ← Finset.mul_sum, ← Finset.mul_sum, hscaled, hmoment, hown]
  ring

/-- What reaches one value, of every output with a weight: only its own channel moves with it. -/
theorem hasDerivAt_sum_trained (hε : 0 < ε) (hq : q ∈ s.channel axis c) :
    let σ := √(s.channelVariance axis x c + ε)
    let m : ℝ := (s.channel axis c).card
    let standard i := (x i - s.channelMean axis x c) * (1 / σ)
    HasDerivAt (fun t => ∑ i ∈ s.box, g i * s.trained axis ε γ β (update x q t) i)
      ((g q * γ c * m - ∑ i ∈ s.channel axis c, g i * γ c -
        standard q * ∑ i ∈ s.channel axis c, g i * γ c * standard i) * (1 / σ) / m) (x q) := by
  intro σ m standard
  have hterm : ∀ i ∈ s.box, HasDerivAt (fun t => g i * s.trained axis ε γ β (update x q t) i)
      (if i.getD axis 0 = c then g i * (γ c * (((if i = q then 1 else 0) - 1 / m) / σ -
        (x i - s.channelMean axis x c) * (x q - s.channelMean axis x c) / (m * σ ^ 3))) else 0)
      (x q) := by
    intro i hi
    by_cases hchannel : i.getD axis 0 = c
    · rw [if_pos hchannel]
      exact (hasDerivAt_trained hε hq (Finset.mem_filter.mpr ⟨hi, hchannel⟩)).const_mul (g i)
    · rw [if_neg hchannel]
      -- An output of another channel does not move at all.
      have hother : q ∉ s.channel axis (i.getD axis 0) := by
        intro hmem
        exact hchannel ((mem_channel.mp hmem).2.symm.trans (mem_channel.mp hq).2)
      simp only [trained_update hother (mem_box.mp hi)]
      exact hasDerivAt_const _ _
  have hm : m ≠ 0 := Nat.cast_ne_zero.mpr (Finset.card_ne_zero_of_mem hq)
  refine (HasDerivAt.fun_sum hterm).congr_deriv ?_
  rw [← Finset.sum_filter]
  exact sum_mul_derivative hq hm (γ c) σ fun i => x i - s.channelMean axis x c

theorem hasDerivAt_sum_gamma (s : Extents) (axis c : Nat) (ε : ℝ) (γ β : Nat → ℝ)
    (x g : List Nat → ℝ) :
    HasDerivAt (fun t => ∑ i ∈ s.box, g i * s.trained axis ε (update γ c t) β x i)
      (∑ i ∈ s.channel axis c, g i *
        ((x i - s.channelMean axis x c) * (1 / √(s.channelVariance axis x c + ε)))) (γ c) := by
  rw [channel, Finset.sum_filter]
  apply HasDerivAt.fun_sum
  intro i _
  have hscaled := (((hasDerivAt_update γ c (i.getD axis 0)).mul_const
    (x i - s.channelMean axis x (i.getD axis 0))).div_const
      (√(s.channelVariance axis x (i.getD axis 0) + ε))).add_const (β (i.getD axis 0))
  refine (hscaled.const_mul (g i)).congr_deriv ?_
  by_cases hchannel : i.getD axis 0 = c
  · rw [if_pos hchannel, if_pos hchannel, hchannel]
    ring
  · rw [if_neg hchannel, if_neg hchannel]
    ring

theorem hasDerivAt_sum_beta (s : Extents) (axis c : Nat) (ε : ℝ) (γ β : Nat → ℝ)
    (x g : List Nat → ℝ) :
    HasDerivAt (fun t => ∑ i ∈ s.box, g i * s.trained axis ε γ (update β c t) x i)
      (∑ i ∈ s.channel axis c, g i) (β c) := by
  rw [channel, Finset.sum_filter]
  apply HasDerivAt.fun_sum
  intro i _
  refine (((hasDerivAt_update β c (i.getD axis 0)).const_add _).const_mul (g i)).congr_deriv ?_
  by_cases hchannel : i.getD axis 0 = c
  · rw [if_pos hchannel, if_pos hchannel, mul_one]
  · rw [if_neg hchannel, if_neg hchannel, mul_zero]

end Extents

namespace Normalized

variable {x gamma beta g : DenseArray ℝ} {s : Extents} {axis c : Nat} {ε : ℝ} {q : List Nat}

/-- What goes back to a value is the derivative by it of all that the outputs are worth. -/
theorem hasDerivAt_toInput (read : Single → ℝ) (hx : x.extents = s) (hsize : ∀ n ∈ s, n ≠ 0)
    (haxis : axis < s.length) (hgamma : gamma.extents = [s.getD axis 0]) (hε : 0 < ε)
    (hg : g.extents = s) (hq : s.Contains q) (β : Nat → ℝ) :
    letI := ExactField.real read
    HasDerivAt (fun t => ∑ i ∈ s.box, g.get i *
        s.trained axis ε (fun c => gamma.get [c]) β (update x.get q t) i)
      (((ofBatch x gamma axis ε).toInput g).get q) (x.get q) := by
  let _ := ExactField.real read
  have hmem : q ∈ s.channel axis (q.getD axis 0) := Extents.mem_channel.mpr ⟨hq, rfl⟩
  exact (Extents.hasDerivAt_sum_trained hε hmem).congr_deriv
    (get_toInput_ofBatch hx hsize haxis hgamma hg hmem).symm

theorem hasDerivAt_toGamma (read : Single → ℝ) (hx : x.extents = s) (hsize : ∀ n ∈ s, n ≠ 0)
    (haxis : axis < s.length) (hg : g.extents = s) (hc : c < s.getD axis 0) (β : Nat → ℝ) :
    letI := ExactField.real read
    HasDerivAt (fun t => ∑ i ∈ s.box, g.get i *
        s.trained axis ε (update (fun c => gamma.get [c]) c t) β x.get i)
      (((ofBatch x gamma axis ε).toGamma g).get [c]) (gamma.get [c]) := by
  let _ := ExactField.real read
  exact (Extents.hasDerivAt_sum_gamma s axis c ε _ β x.get g.get).congr_deriv
    (get_toGamma_ofBatch hx hsize haxis hg hc).symm

theorem hasDerivAt_toBeta (read : Single → ℝ) (haxis : axis < s.length) (hg : g.extents = s)
    (hc : c < s.getD axis 0) (γ : Nat → ℝ) :
    letI := ExactField.real read
    HasDerivAt (fun t => ∑ i ∈ s.box, g.get i *
        s.trained axis ε γ (update (fun c => beta.get [c]) c t) x.get i)
      (((ofBatch x gamma axis ε).toBeta g).get [c]) (beta.get [c]) := by
  let _ := ExactField.real read
  exact (Extents.hasDerivAt_sum_beta s axis c ε γ _ x.get g.get).congr_deriv
    (get_toBeta (ofBatch x gamma axis ε) hg haxis hc).symm

end Normalized

end NeuralNet
