import NeuralNet.Proofs.Number.Magnitude

/-!
# Words of one format as words of another

* `read_eq`: a word is a sign and a magnitude;
* `write_of_same`: a number that the format has is written as its own word, so two words that are
  not NaNs never stand for the same number;
* `same_convert`: going to a wider format loses nothing;
* `convert_of_same`: a number that the other format has is found there.
-/

namespace NeuralNet

namespace Datum

/-- Two data are the same when they are equal numbers of the same sign, infinities of the same
sign, or NaNs of any payload. -/
def Same : Datum → Datum → Prop
  | nan _ _, nan _ _ => True
  | infinity s, infinity t => s = t
  | finite s m e, finite t n k => s = t ∧ (m : ℚ) * 2 ^ e = n * 2 ^ k
  | _, _ => False

def isNaN : Datum → Bool
  | nan _ _ => true
  | _ => false

theorem Same.refl (d : Datum) : d.Same d := by
  cases d with
  | nan => trivial
  | infinity => rfl
  | finite => exact ⟨rfl, rfl⟩

theorem Same.symm {c d : Datum} (h : c.Same d) : d.Same c := by
  cases c <;> cases d <;> simp_all [Same]

theorem Same.trans {b c d : Datum} (h : b.Same c) (k : c.Same d) : b.Same d := by
  cases b <;> cases c <;> cases d <;> simp_all [Same]

theorem Same.isNaN_eq {c d : Datum} (h : c.Same d) : c.isNaN = d.isNaN := by
  cases c <;> cases d <;> simp_all [Same, isNaN]

theorem Same.of_isNaN {c d : Datum} (hc : c.isNaN = true) (hd : d.isNaN = true) : c.Same d := by
  cases c <;> cases d <;> simp_all [Same, isNaN]

theorem quiet_of_not_isNaN {d : Datum} (h : d.isNaN = false) : d.quiet = d := by
  cases d <;> simp_all [quiet, isNaN]

end Datum

namespace BinaryFormat

variable {f g : BinaryFormat}

/-- How many magnitudes there are. -/
def magnitudes (f : BinaryFormat) : Nat := 2 ^ (f.exponentBits + f.fractionBits)

def magnitude (f : BinaryFormat) (w : Nat) : Nat := w % f.magnitudes

def negative (f : BinaryFormat) (w : Nat) : Bool := w / f.magnitudes % 2 == 1

theorem magnitudes_pos (f : BinaryFormat) : 0 < f.magnitudes := Nat.two_pow_pos _

theorem infinityWord_add (f : BinaryFormat) :
    f.infinityWord + 2 ^ f.fractionBits = f.magnitudes := by
  have hp := Nat.two_pow_pos f.exponentBits
  rw [infinityWord, topExponent, magnitudes, Nat.one_shiftLeft, Nat.shiftLeft_eq, Nat.pow_add,
    ← Nat.succ_mul, Nat.succ_eq_add_one, Nat.sub_add_cancel hp]

/-- The three kinds of words lie one above the other. -/
theorem read_eq (f : BinaryFormat) (w : Nat) :
    f.read w =
      if f.magnitude w < f.infinityWord then
        .finite (f.negative w) (f.significand (f.magnitude w))
          (f.minExponent + f.scale (f.magnitude w))
      else if f.magnitude w = f.infinityWord then .infinity (f.negative w)
      else
        .nan (f.negative w) ((f.magnitude w % 2 ^ f.fractionBits) <<< (52 - f.fractionBits)) := by
  have hp := Nat.two_pow_pos f.fractionBits
  have hneg : (w >>> (f.exponentBits + f.fractionBits) % 2 == 1) = f.negative w := by
    rw [negative, magnitudes, Nat.shiftRight_eq_div_pow]
  have hexp : w >>> f.fractionBits % 2 ^ f.exponentBits = f.magnitude w / 2 ^ f.fractionBits := by
    rw [magnitude, magnitudes, Nat.add_comm, Nat.pow_add, Nat.mod_mul_right_div_self,
      Nat.shiftRight_eq_div_pow]
  have hfrac : w % 2 ^ f.fractionBits = f.magnitude w % 2 ^ f.fractionBits := by
    rw [magnitude, magnitudes, Nat.mod_mod_of_dvd]
    exact Nat.pow_dvd_pow 2 (Nat.le_add_left _ _)
  have hm : f.magnitude w < f.magnitudes := Nat.mod_lt _ f.magnitudes_pos
  simp only [read, Nat.one_shiftLeft, hneg, hexp, hfrac]
  generalize f.magnitude w = m at hm ⊢
  have hdiv := Nat.div_add_mod m (2 ^ f.fractionBits)
  have hmod := Nat.mod_lt m hp
  have hinf := infinityWord_add f
  have htop : f.infinityWord = 2 ^ f.fractionBits * f.topExponent := by
    rw [infinityWord, Nat.shiftLeft_eq, Nat.mul_comm]
  unfold significand scale
  by_cases hlt : m < f.infinityWord
  · have hq : m / 2 ^ f.fractionBits < f.topExponent := by
      rw [Nat.div_lt_iff_lt_mul hp, Nat.mul_comm, ← htop]
      exact hlt
    rw [if_neg hq.ne, if_pos hlt]
    by_cases hsub : m < 2 ^ f.fractionBits
    · have h0 : m / 2 ^ f.fractionBits = 0 := Nat.div_eq_of_lt hsub
      rw [if_pos h0, if_pos hsub, h0, Nat.mod_eq_of_lt hsub]
      simp
    · have h0 : 0 < m / 2 ^ f.fractionBits := Nat.div_pos (by omega) hp
      rw [if_neg h0.ne', if_neg hsub]
      congr 2
      omega
  · have hq : m / 2 ^ f.fractionBits = f.topExponent := by
      apply Nat.div_eq_of_lt_le
      · rw [Nat.mul_comm, ← htop]; omega
      · rw [Nat.succ_mul, Nat.mul_comm, ← htop]; omega
    rw [hq, ← htop] at hdiv
    rw [if_pos hq, if_neg hlt]
    by_cases heq : m = f.infinityWord
    · rw [if_pos heq, if_pos (by omega)]
    · rw [if_neg heq, if_neg (by omega)]

theorem signWord_eq (f : BinaryFormat) (s : Bool) :
    f.signWord s = if s then f.magnitudes else 0 := by
  simp [signWord, magnitudes, Nat.one_shiftLeft]

theorem magnitude_signWord_add {s : Bool} {m : Nat} (h : m < f.magnitudes) :
    f.magnitude (f.signWord s + m) = m := by
  rw [magnitude, signWord_eq]
  cases s <;> simp [Nat.mod_eq_of_lt h]

theorem negative_signWord_add {s : Bool} {m : Nat} (h : m < f.magnitudes) :
    f.negative (f.signWord s + m) = s := by
  rw [negative, signWord_eq]
  cases s
  · simp [Nat.div_eq_of_lt h]
  · simp [Nat.add_div_left _ f.magnitudes_pos, Nat.div_eq_of_lt h]

theorem signWord_add_lt {s : Bool} {m : Nat} (h : m < f.magnitudes) :
    f.signWord s + m < 2 * f.magnitudes := by
  rw [signWord_eq]
  split <;> omega

/-- A word is a sign bit and a magnitude. -/
theorem signWord_negative_add_magnitude {w : Nat} (h : w < 2 * f.magnitudes) :
    f.signWord (f.negative w) + f.magnitude w = w := by
  have hdiv := Nat.div_add_mod w f.magnitudes
  have hq : w / f.magnitudes < 2 := (Nat.div_lt_iff_lt_mul f.magnitudes_pos).mpr h
  rw [signWord_eq, negative, magnitude]
  generalize w / f.magnitudes = q at hdiv hq ⊢
  obtain rfl | rfl : q = 0 ∨ q = 1 := by omega
  · simpa using hdiv
  · simpa using hdiv

theorem infinityWord_lt (f : BinaryFormat) : f.infinityWord < f.magnitudes := by
  have := infinityWord_add f
  have := Nat.two_pow_pos f.fractionBits
  omega

/-! ## Writing -/

theorem roundMagnitude_le (f : BinaryFormat) (num den : Nat) :
    f.roundMagnitude num den ≤ f.infinityWord := by
  unfold roundMagnitude
  split
  · exact Nat.zero_le _
  · exact Nat.min_le_right _ _

/-- What is written for a finite number is that number's sign and a magnitude up to infinity. -/
theorem read_write_finite (f : BinaryFormat) (s : Bool) (n : Nat) (e : Int) :
    ∃ m, m ≤ f.infinityWord ∧ f.write (.finite s n e) = f.signWord s + m ∧
      f.read (f.write (.finite s n e)) =
        if m < f.infinityWord then .finite s (f.significand m) (f.minExponent + f.scale m)
        else .infinity s := by
  let m := f.roundMagnitude (Datum.ratio n e).1 (Datum.ratio n e).2
  have hm : m ≤ f.infinityWord := roundMagnitude_le _ _ _
  have hlt : m < f.magnitudes := Nat.lt_of_le_of_lt hm f.infinityWord_lt
  refine ⟨m, hm, rfl, ?_⟩
  change f.read (f.signWord s + m) = _
  rw [read_eq, magnitude_signWord_add hlt, negative_signWord_add hlt]
  by_cases h : m < f.infinityWord
  · rw [if_pos h, if_pos h]
  · rw [if_neg h, if_neg h, if_pos (by omega)]

/-- Whatever has the number of a word is written as that word. -/
theorem write_of_same {w : Nat} {d : Datum} (hw : w < 2 * f.magnitudes) (hd : d.isNaN = false)
    (h : d.Same (f.read w)) : f.write d = w := by
  have hword := signWord_negative_add_magnitude hw
  rw [read_eq] at h
  by_cases hlt : f.magnitude w < f.infinityWord
  · rw [if_pos hlt] at h
    cases d with
    | finite s n e =>
      obtain ⟨rfl, hv⟩ := h
      have hr := roundMagnitude_of_value (f := f) (m := f.magnitude w) (ratio_snd_pos n e)
        (by rw [ratio_div, hv, value])
      simp only [write]
      rw [hr, Nat.min_eq_left hlt.le, hword]
    | infinity => exact h.elim
    | nan => exact h.elim
  · rw [if_neg hlt] at h
    by_cases heq : f.magnitude w = f.infinityWord
    · rw [if_pos heq] at h
      cases d with
      | infinity s =>
        obtain rfl : s = f.negative w := h
        rw [write, ← heq, hword]
      | finite => exact h.elim
      | nan => exact h.elim
    · rw [if_neg heq] at h
      cases d with
      | nan => cases hd
      | finite => exact h.elim
      | infinity => exact h.elim

/-- Only NaNs have several words. -/
theorem eq_of_same {v w : Nat} (hv : v < 2 * f.magnitudes) (hw : w < 2 * f.magnitudes)
    (hn : (f.read v).isNaN = false) (h : (f.read v).Same (f.read w)) : v = w := by
  have h1 := write_of_same hv hn (.refl _)
  have h2 := write_of_same hw hn h
  exact h1.symm.trans h2

/-! ## Conversion -/

theorem payload_lt {f : BinaryFormat} (h : f.fractionBits ≤ 52) {w : Nat} {s : Bool} {p : Nat}
    (hr : f.read w = .nan s p) : p < 2 ^ 52 := by
  rw [read_eq] at hr
  split at hr
  · cases hr
  · split at hr
    · cases hr
    · obtain ⟨-, rfl⟩ := Datum.nan.inj hr
      rw [Nat.shiftLeft_eq]
      calc f.magnitude w % 2 ^ f.fractionBits * 2 ^ (52 - f.fractionBits)
          < 2 ^ f.fractionBits * 2 ^ (52 - f.fractionBits) :=
            Nat.mul_lt_mul_of_pos_right (Nat.mod_lt _ (Nat.two_pow_pos _)) (Nat.two_pow_pos _)
        _ = 2 ^ 52 := by rw [← Nat.pow_add, Nat.add_sub_cancel' h]

/-- The highest bit that `quiet` sets is still there in a shorter fraction. -/
theorem quiet_payload {p k : Nat} (hp : p < 2 ^ 52) (hk : 0 < k) (hk' : k ≤ 52) :
    0 < (p ||| 1 <<< 51) >>> (52 - k) ∧ (p ||| 1 <<< 51) >>> (52 - k) < 2 ^ k := by
  have hlow : 2 ^ 51 ≤ p ||| 1 <<< 51 := by
    rw [Nat.one_shiftLeft]; exact Nat.right_le_or
  have hhigh : p ||| 1 <<< 51 < 2 ^ 52 := Nat.or_lt_two_pow hp (by decide)
  rw [Nat.shiftRight_eq_div_pow]
  constructor
  · apply Nat.div_pos _ (Nat.two_pow_pos _)
    exact Nat.le_trans (Nat.pow_le_pow_right (by decide) (by omega)) hlow
  · rw [Nat.div_lt_iff_lt_mul (Nat.two_pow_pos _), ← Nat.pow_add, Nat.add_sub_cancel' hk']
    exact hhigh

/-- What conversion needs of both formats: some fraction, and room for it in a payload. -/
structure Regular (f : BinaryFormat) : Prop where
  pos : 0 < f.fractionBits
  le : f.fractionBits ≤ 52

theorem isNaN_read_write_quiet (hg : g.Regular) {s : Bool} {p : Nat} (hp : p < 2 ^ 52) :
    (g.read (g.write (Datum.nan s p).quiet)).isNaN = true ∧
      g.write (Datum.nan s p).quiet < 2 * g.magnitudes := by
  obtain ⟨h1, h2⟩ := quiet_payload hp hg.pos hg.le
  have hadd := infinityWord_add g
  let m := g.infinityWord + (p ||| 1 <<< 51) >>> (52 - g.fractionBits)
  have hm : m < g.magnitudes := by omega
  have hword : g.write (Datum.nan s p).quiet = g.signWord s + m := by
    simp only [Datum.quiet, write, m, Nat.add_assoc]
  rw [hword, read_eq, magnitude_signWord_add hm, if_neg (by omega), if_neg (by omega)]
  exact ⟨rfl, signWord_add_lt hm⟩

theorem isNaN_read_write {d : Datum} (h : d.isNaN = false) :
    (g.read (g.write d)).isNaN = false ∧ g.write d < 2 * g.magnitudes := by
  cases d with
  | nan => cases h
  | infinity s =>
    have hlt := infinityWord_lt g
    simp only [write]
    rw [read_eq, magnitude_signWord_add hlt, if_neg (Nat.lt_irrefl _), if_pos rfl]
    exact ⟨rfl, signWord_add_lt hlt⟩
  | finite s n e =>
    obtain ⟨m, hm, hword, hread⟩ := read_write_finite g s n e
    rw [hread, hword]
    refine ⟨?_, signWord_add_lt (Nat.lt_of_le_of_lt hm g.infinityWord_lt)⟩
    split <;> rfl

/-- Conversion gives a word of the target, and a NaN for a NaN only. -/
theorem isNaN_convert (hf : f.Regular) (hg : g.Regular) (w : Nat) :
    (g.read (convert f g w)).isNaN = (f.read w).isNaN ∧ convert f g w < 2 * g.magnitudes := by
  unfold convert
  cases hr : f.read w with
  | nan s p => exact isNaN_read_write_quiet hg (payload_lt hf.le hr)
  | infinity | finite => exact isNaN_read_write (g := g) rfl

/-- A number that the target has becomes its word there. -/
theorem convert_of_same {v w : Nat} (hv : v < 2 * g.magnitudes) (hn : (f.read w).isNaN = false)
    (h : (f.read w).Same (g.read v)) : convert f g w = v := by
  rw [convert, Datum.quiet_of_not_isNaN hn]
  exact write_of_same hv hn h

/-- Every number of `f` is one of `g`. -/
structure Widens (f g : BinaryFormat) : Prop where
  two_le : 2 ≤ f.exponentBits
  exponentBits_le : f.exponentBits ≤ g.exponentBits
  fractionBits_le : f.fractionBits ≤ g.fractionBits
  minExponent_le : g.minExponent ≤ f.minExponent

theorem Widens.value_infinityWord_le (h : Widens f g) :
    f.value f.infinityWord ≤ g.value g.infinityWord := by
  rw [value_infinityWord h.two_le, value_infinityWord (Nat.le_trans h.two_le h.exponentBits_le)]
  have he : 2 ^ (f.exponentBits - 1) ≤ 2 ^ (g.exponentBits - 1) :=
    Nat.pow_le_pow_right (by decide) (Nat.sub_le_sub_right h.exponentBits_le 1)
  exact pow_le_pow_right₀ (by norm_num) he

/-- A significand that fits and a number that is not too great: some word stands for it. -/
theorem exists_same_finite (s : Bool) {n : Nat} {e : Int} (hn : n < 2 * 2 ^ g.fractionBits)
    (he : g.minExponent ≤ e) (hlt : (n : ℚ) * 2 ^ e < g.value g.infinityWord) :
    ∃ v, v < 2 * g.magnitudes ∧ (Datum.finite s n e).Same (g.read v) := by
  obtain ⟨m, hm, hval⟩ := exists_value_eq hn he hlt
  have hlt := Nat.lt_trans hm g.infinityWord_lt
  refine ⟨g.signWord s + m, signWord_add_lt hlt, ?_⟩
  rw [read_eq, magnitude_signWord_add hlt, negative_signWord_add hlt, if_pos hm]
  exact ⟨rfl, hval.symm⟩

theorem Widens.exists_same (h : Widens f g) {w : Nat} (hn : (f.read w).isNaN = false) :
    ∃ v, v < 2 * g.magnitudes ∧ (f.read w).Same (g.read v) := by
  rw [read_eq] at hn ⊢
  by_cases hlt : f.magnitude w < f.infinityWord
  · rw [if_pos hlt]
    apply exists_same_finite
    · have hs := significand_lt f (f.magnitude w)
      have hp : 2 ^ f.fractionBits ≤ 2 ^ g.fractionBits :=
        Nat.pow_le_pow_right (by decide) h.fractionBits_le
      omega
    · have := h.minExponent_le
      omega
    · exact lt_of_lt_of_le (value_strictMono f hlt) h.value_infinityWord_le
  · rw [if_neg hlt] at hn ⊢
    by_cases heq : f.magnitude w = f.infinityWord
    · rw [if_pos heq]
      have hinf := infinityWord_lt g
      refine ⟨g.signWord (f.negative w) + g.infinityWord, signWord_add_lt hinf, ?_⟩
      rw [read_eq, magnitude_signWord_add hinf, negative_signWord_add hinf,
        if_neg (Nat.lt_irrefl _), if_pos rfl]
      rfl
    · rw [if_neg heq] at hn
      cases hn

theorem Widens.same_convert (h : Widens f g) (hf : f.Regular) (hg : g.Regular) (w : Nat) :
    (f.read w).Same (g.read (convert f g w)) := by
  cases hn : (f.read w).isNaN with
  | true => exact .of_isNaN hn ((isNaN_convert hf hg w).1.trans hn)
  | false =>
    obtain ⟨v, hv, hs⟩ := h.exists_same hn
    rw [convert_of_same hv hn hs]
    exact hs

theorem regular_half : Regular half := ⟨by decide, by decide⟩

theorem regular_single : Regular single := ⟨by decide, by decide⟩

theorem regular_double : Regular double := ⟨by decide, by decide⟩

theorem half_widens_single : Widens half single := ⟨by decide, by decide, by decide, by decide⟩

theorem single_widens_double : Widens single double := ⟨by decide, by decide, by decide, by decide⟩

end BinaryFormat

end NeuralNet
