import Mathlib.Algebra.Order.Field.Power
import Mathlib.Data.Rat.Cast.Order
import Mathlib.Tactic.FieldSimp
import Mathlib.Tactic.Linarith
import Mathlib.Tactic.Positivity
import Mathlib.Tactic.Ring
import NeuralNet.Number.Binary

/-!
# Magnitudes as exact numbers

A magnitude is a word without its sign.

* `scale_mul_add_significand`: it is a significand and a scale written next to each other;
* `value_strictMono`: words and the numbers they stand for have the same order;
* `roundMagnitude_of_value`: a number that the format has is rounded to itself;
* `exists_value_eq`: which numbers a format has.
-/

namespace NeuralNet.BinaryFormat

variable {f g : BinaryFormat}

/-- The whole number that a power of two is taken of. -/
def significand (f : BinaryFormat) (m : Nat) : Nat :=
  if m < 2 ^ f.fractionBits then m else 2 ^ f.fractionBits + m % 2 ^ f.fractionBits

/-- How far the power of two lies above the smallest one. -/
def scale (f : BinaryFormat) (m : Nat) : Nat := m / 2 ^ f.fractionBits - 1

/-- The number that a magnitude stands for. The numbers go on past the infinite magnitude, which
stands for the first one that is too great. -/
def value (f : BinaryFormat) (m : Nat) : ℚ := f.significand m * 2 ^ (f.minExponent + f.scale m)

theorem significand_lt (f : BinaryFormat) (m : Nat) :
    f.significand m < 2 * 2 ^ f.fractionBits := by
  have hp := Nat.two_pow_pos f.fractionBits
  have hm := Nat.mod_lt m hp
  unfold significand
  split <;> omega

theorem scale_eq_zero_or (f : BinaryFormat) (m : Nat) :
    f.scale m = 0 ∨ 2 ^ f.fractionBits ≤ f.significand m := by
  unfold scale significand
  split
  · left; simp [Nat.div_eq_of_lt ‹_›]
  · right; omega

theorem scale_mul_add_significand (f : BinaryFormat) (m : Nat) :
    f.scale m * 2 ^ f.fractionBits + f.significand m = m := by
  unfold scale significand
  have hp := Nat.two_pow_pos f.fractionBits
  generalize 2 ^ f.fractionBits = p at hp ⊢
  split
  · simp [Nat.div_eq_of_lt ‹_›]
  · have hq : 0 < m / p := Nat.div_pos (by omega) hp
    obtain ⟨q, hq⟩ := Nat.exists_eq_succ_of_ne_zero hq.ne'
    have hm := Nat.div_add_mod m p
    rw [hq, Nat.mul_succ] at hm
    rw [hq, Nat.succ_eq_add_one, Nat.add_sub_cancel, Nat.mul_comm]
    omega

/-- Every magnitude has only one significand and scale. -/
theorem scale_significand_eq {j s : Nat} (hs : s < 2 * 2 ^ f.fractionBits)
    (hj : j = 0 ∨ 2 ^ f.fractionBits ≤ s) :
    f.scale (j * 2 ^ f.fractionBits + s) = j ∧ f.significand (j * 2 ^ f.fractionBits + s) = s := by
  unfold scale significand
  have hp := Nat.two_pow_pos f.fractionBits
  generalize 2 ^ f.fractionBits = p at hp hs hj ⊢
  by_cases hn : p ≤ s
  · obtain ⟨t, rfl⟩ := Nat.exists_eq_add_of_le hn
    have ht : t < p := by omega
    have hw : j * p + (p + t) = t + p * (j + 1) := by ring
    have hl : ¬ t + p * (j + 1) < p := by rw [Nat.mul_succ]; omega
    rw [hw, Nat.add_mul_div_left _ _ hp, Nat.add_mul_mod_self_left, Nat.div_eq_of_lt ht,
      Nat.mod_eq_of_lt ht, if_neg hl]
    omega
  · obtain rfl : j = 0 := by omega
    have hlt : s < p := by omega
    simp [hlt, Nat.div_eq_of_lt hlt]

theorem value_scale_significand {j s : Nat} (hs : s < 2 * 2 ^ f.fractionBits)
    (hj : j = 0 ∨ 2 ^ f.fractionBits ≤ s) :
    f.value (j * 2 ^ f.fractionBits + s) = s * 2 ^ (f.minExponent + j) := by
  obtain ⟨h1, h2⟩ := scale_significand_eq hs hj
  rw [value, h1, h2]

/-- A greater scale outweighs any significand. -/
theorem value_lt_of_scale {i j s t : Nat} (hs : s < 2 * 2 ^ f.fractionBits)
    (ht : 2 ^ f.fractionBits ≤ t) (hij : i < j) :
    (s : ℚ) * 2 ^ (f.minExponent + i) < t * 2 ^ (f.minExponent + j) := by
  have hsq : (s : ℚ) < 2 * 2 ^ f.fractionBits := by exact_mod_cast hs
  have htq : (2 : ℚ) ^ f.fractionBits ≤ t := by exact_mod_cast ht
  have hstep : (2 : ℚ) ^ (f.minExponent + i + 1) ≤ 2 ^ (f.minExponent + j) :=
    zpow_le_zpow_right₀ (by norm_num) (by omega)
  calc (s : ℚ) * 2 ^ (f.minExponent + i)
      < 2 * 2 ^ f.fractionBits * 2 ^ (f.minExponent + i) := by gcongr
    _ = 2 ^ f.fractionBits * 2 ^ (f.minExponent + i + 1) := by
      rw [zpow_add_one₀ two_ne_zero]; ring
    _ ≤ t * 2 ^ (f.minExponent + j) := by gcongr

theorem value_strictMono (f : BinaryFormat) : StrictMono f.value := by
  intro a b hab
  have ha := scale_mul_add_significand f a
  have hb := scale_mul_add_significand f b
  have hsa := significand_lt f a
  have hsb := significand_lt f b
  have hna := scale_eq_zero_or f a
  have hnb := scale_eq_zero_or f b
  unfold value
  rcases Nat.lt_trichotomy (f.scale a) (f.scale b) with h | h | h
  · exact value_lt_of_scale hsa (hnb.resolve_left (by omega)) h
  · have hs : f.significand a < f.significand b := by rw [h] at ha; omega
    have hsq : (f.significand a : ℚ) < f.significand b := by exact_mod_cast hs
    rw [h]
    gcongr
  · -- the word of the greater scale would be the greater one
    have hle : (f.scale b + 1) * 2 ^ f.fractionBits ≤ f.scale a * 2 ^ f.fractionBits :=
      Nat.mul_le_mul_right _ h
    rw [Nat.add_mul] at hle
    have := hna.resolve_left (by omega)
    omega

theorem value_zero (f : BinaryFormat) : f.value 0 = 0 := by
  simp [value, significand]

theorem value_pos {m : Nat} (h : 0 < m) : 0 < f.value m := by
  simpa only [value_zero] using value_strictMono f h

theorem value_nonneg (f : BinaryFormat) (m : Nat) : 0 ≤ f.value m := by
  unfold value; positivity

/-! ## Rounding what needs no rounding -/

theorem cast_shiftLeft (n k : Nat) : ((n <<< k : Nat) : ℚ) = n * 2 ^ k := by
  simp [Nat.shiftLeft_eq]

/-- Shifting numerator or denominator multiplies the quotient by a power of two. -/
theorem shiftLeft_div_shiftLeft (num den : Nat) (e : Int) :
    ((num <<< e.toNat : Nat) : ℚ) / ((den <<< (-e).toNat : Nat) : ℚ) = num / den * 2 ^ e := by
  rw [cast_shiftLeft, cast_shiftLeft]
  rcases Int.le_total 0 e with h | h
  · obtain ⟨k, rfl⟩ := Int.eq_ofNat_of_zero_le h
    simp [zpow_natCast]
    ring
  · obtain ⟨k, hk⟩ := Int.eq_ofNat_of_zero_le (a := -e) (by omega)
    obtain rfl : e = -k := by omega
    simp [zpow_neg, zpow_natCast]
    field_simp

/-- The ratio of a finite number is its value. -/
theorem ratio_div (significand : Nat) (exponent : Int) :
    ((Datum.ratio significand exponent).1 : ℚ) / (Datum.ratio significand exponent).2 =
      significand * 2 ^ exponent := by
  have h := shiftLeft_div_shiftLeft significand 1 exponent
  simpa only [Datum.ratio, Nat.cast_one, div_one] using h

theorem ratio_snd_pos (significand : Nat) (exponent : Int) :
    0 < (Datum.ratio significand exponent).2 := by
  simp [Datum.ratio, Nat.shiftLeft_eq]

theorem zpow_log2_le {n : Nat} (h : 0 < n) : (2 : ℚ) ^ (n.log2 : ℤ) ≤ n := by
  rw [zpow_natCast]
  exact_mod_cast Nat.log2_self_le h.ne'

theorem lt_zpow_log2 (n : Nat) : (n : ℚ) < 2 ^ (n.log2 + 1 : ℤ) := by
  have h := Nat.lt_log2_self (n := n)
  have hq : (n : ℚ) < 2 ^ (n.log2 + 1) := by exact_mod_cast h
  exact_mod_cast hq

theorem floorLog_spec {num den : Nat} (hn : 0 < num) (hd : 0 < den) :
    (2 : ℚ) ^ floorLog num den ≤ num / den ∧ (num / den : ℚ) < 2 ^ (floorLog num den + 1) := by
  have hdq : (0 : ℚ) < den := by exact_mod_cast hd
  let k : ℤ := num.log2 - den.log2
  have hlow : (2 : ℚ) ^ (k - 1) ≤ num / den := by
    rw [le_div_iff₀ hdq]
    calc (2 : ℚ) ^ (k - 1) * den ≤ 2 ^ (k - 1) * 2 ^ (den.log2 + 1 : ℤ) := by
          gcongr; exact (lt_zpow_log2 den).le
      _ = 2 ^ (num.log2 : ℤ) := by rw [← zpow_add₀ two_ne_zero]; congr 1; omega
      _ ≤ num := zpow_log2_le hn
  have hhigh : (num / den : ℚ) < 2 ^ (k + 1) := by
    rw [div_lt_iff₀ hdq]
    calc (num : ℚ) < 2 ^ (num.log2 + 1 : ℤ) := lt_zpow_log2 num
      _ = 2 ^ (k + 1) * 2 ^ (den.log2 : ℤ) := by
        rw [← zpow_add₀ two_ne_zero]; congr 1; omega
      _ ≤ 2 ^ (k + 1) * den := by gcongr; exact zpow_log2_le hd
  -- the test of `floorLog` compares with the power in between
  have htest : den <<< k.toNat ≤ num <<< (-k).toNat ↔ (2 : ℚ) ^ k ≤ num / den := by
    have hpos : (0 : ℚ) < ((den <<< k.toNat : Nat) : ℚ) := by
      rw [cast_shiftLeft]; positivity
    have hs := shiftLeft_div_shiftLeft num den (-k)
    rw [neg_neg] at hs
    rw [← Nat.cast_le (α := ℚ), ← one_le_div hpos, hs, zpow_neg, ← div_eq_mul_inv,
      one_le_div (by positivity)]
  unfold floorLog
  by_cases h : den <<< k.toNat ≤ num <<< (-k).toNat
  · rw [if_pos h]
    exact ⟨htest.mp h, hhigh⟩
  · rw [if_neg h, sub_add_cancel]
    exact ⟨hlow, not_le.mp fun hle => h (htest.mpr hle)⟩

theorem divEven_of_dvd {num den q : Nat} (hd : 0 < den) (h : num = q * den) :
    divEven num den = q := by
  subst h
  simp [divEven, Nat.mul_div_cancel _ hd, hd]

/-- The exponent that rounding takes for a number of the format is the number's own. -/
theorem max_floorLog_eq {m num den : Nat} (hn : 0 < num) (hd : 0 < den)
    (h : (num / den : ℚ) = f.value m) :
    max f.minExponent (floorLog num den - f.fractionBits) = f.minExponent + f.scale m := by
  obtain ⟨hlow, hhigh⟩ := floorLog_spec hn hd
  rw [h, value] at hlow hhigh
  have hs := significand_lt f m
  have hsq : (f.significand m : ℚ) < 2 * 2 ^ f.fractionBits := by exact_mod_cast hs
  have hbelow : (2 : ℚ) ^ floorLog num den <
      2 ^ (f.fractionBits + 1 + (f.minExponent + f.scale m)) := by
    calc (2 : ℚ) ^ floorLog num den ≤ f.significand m * 2 ^ (f.minExponent + f.scale m) := hlow
      _ < 2 * 2 ^ f.fractionBits * 2 ^ (f.minExponent + f.scale m) := by gcongr
      _ = _ := by
        rw [zpow_add₀ two_ne_zero (f.fractionBits + 1 : ℤ), zpow_add_one₀ two_ne_zero, zpow_natCast]
        ring
  have hbelow' := (zpow_lt_zpow_iff_right₀ (by norm_num : (1 : ℚ) < 2)).mp hbelow
  rcases scale_eq_zero_or f m with h0 | h0
  · omega
  · have hsq : (2 : ℚ) ^ f.fractionBits ≤ f.significand m := by exact_mod_cast h0
    have habove : (2 : ℚ) ^ (f.fractionBits + (f.minExponent + f.scale m)) <
        2 ^ (floorLog num den + 1) := by
      calc (2 : ℚ) ^ (f.fractionBits + (f.minExponent + f.scale m))
          = 2 ^ f.fractionBits * 2 ^ (f.minExponent + f.scale m) := by
            rw [zpow_add₀ two_ne_zero, zpow_natCast]
        _ ≤ f.significand m * 2 ^ (f.minExponent + f.scale m) := by gcongr
        _ < _ := hhigh
    have habove' := (zpow_lt_zpow_iff_right₀ (by norm_num : (1 : ℚ) < 2)).mp habove
    omega

/-- A number of the format is rounded to its own word, or to infinity from there on. -/
theorem roundMagnitude_of_value {m num den : Nat} (hd : 0 < den)
    (h : (num / den : ℚ) = f.value m) :
    f.roundMagnitude num den = min m f.infinityWord := by
  have hdq : (den : ℚ) ≠ 0 := by exact_mod_cast hd.ne'
  by_cases hn : num = 0
  · subst hn
    have hm : m = 0 := by
      by_contra hm
      have := value_pos (f := f) (Nat.pos_of_ne_zero hm)
      rw [← h] at this
      simp at this
    simp [roundMagnitude, hm]
  · have he := max_floorLog_eq (Nat.pos_of_ne_zero hn) hd h
    simp only [roundMagnitude, hn, if_false, he]
    let e := f.minExponent + f.scale m
    have hden : 0 < den <<< e.toNat := by rw [Nat.shiftLeft_eq]; positivity
    -- the shifted quotient is the significand without a remainder
    have hquot : num <<< (-e).toNat = f.significand m * den <<< e.toNat := by
      have hs := shiftLeft_div_shiftLeft num den (-e)
      rw [neg_neg, h, value, mul_assoc, ← zpow_add₀ two_ne_zero, add_neg_cancel, zpow_zero, mul_one,
        div_eq_iff (by exact_mod_cast hden.ne')] at hs
      exact_mod_cast hs
    rw [divEven_of_dvd hden hquot, Nat.shiftLeft_eq, add_sub_cancel_left, Int.toNat_natCast,
      scale_mul_add_significand]

/-! ## Which numbers a format has -/

/-- The infinite magnitude follows on the greatest finite number. -/
theorem value_infinityWord {f : BinaryFormat} (h : 2 ≤ f.exponentBits) :
    f.value f.infinityWord = 2 ^ (2 ^ (f.exponentBits - 1) : ℕ) := by
  obtain ⟨k, hk⟩ := Nat.exists_eq_add_of_le h
  have hpow : 2 ^ f.exponentBits = 2 * 2 ^ (f.exponentBits - 1) := by
    rw [← Nat.pow_succ']; congr 1; omega
  have hbig : 2 ≤ 2 ^ (f.exponentBits - 1) := by
    rw [show f.exponentBits - 1 = k + 1 by omega, Nat.pow_succ]
    have := Nat.two_pow_pos k
    omega
  have hsplit : f.infinityWord =
      (f.topExponent - 1) * 2 ^ f.fractionBits + 2 ^ f.fractionBits := by
    have ht : f.topExponent = f.topExponent - 1 + 1 := by
      simp only [topExponent, Nat.one_shiftLeft]; omega
    rw [infinityWord, Nat.shiftLeft_eq]
    conv_lhs => rw [ht]
    rw [Nat.succ_mul]
  have hp := Nat.two_pow_pos f.fractionBits
  rw [hsplit, value_scale_significand (by omega) (.inr (Nat.le_refl _)), Nat.cast_pow,
    Nat.cast_ofNat, ← zpow_natCast, ← zpow_natCast, ← zpow_add₀ two_ne_zero]
  congr 1
  simp only [minExponent, topExponent, Nat.one_shiftLeft, hpow]
  omega

/-- A significand of the right length, no exponent that is too small and no number that is too
great: the format has it. -/
theorem exists_value_eq {s : Nat} {e : Int} (hs : s < 2 * 2 ^ f.fractionBits)
    (he : f.minExponent ≤ e) (hlt : (s : ℚ) * 2 ^ e < f.value f.infinityWord) :
    ∃ m, m < f.infinityWord ∧ f.value m = s * 2 ^ e := by
  suffices h : ∃ m, f.value m = s * 2 ^ e by
    obtain ⟨m, hm⟩ := h
    exact ⟨m, (value_strictMono f).lt_iff_lt.mp (hm ▸ hlt), hm⟩
  obtain ⟨d, rfl⟩ := Int.le.dest he
  clear he hlt
  -- the significand is doubled until it has all its bits or the exponent is the smallest
  induction d generalizing s with
  | zero =>
    refine ⟨0 * 2 ^ f.fractionBits + s, ?_⟩
    rw [value_scale_significand hs (.inl rfl)]
  | succ d ih =>
    by_cases hn : 2 ^ f.fractionBits ≤ s
    · exact ⟨_, value_scale_significand hs (.inr hn)⟩
    · obtain ⟨m, hm⟩ := ih (s := 2 * s) (by omega)
      refine ⟨m, hm.trans ?_⟩
      push_cast
      rw [← add_assoc, zpow_add_one₀ two_ne_zero]
      ring

end NeuralNet.BinaryFormat
