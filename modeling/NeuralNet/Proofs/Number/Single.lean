import NeuralNet.Number.Single
import NeuralNet.Proofs.Number.Conversion

/-!
# Single-precision numbers as exact numbers

* `lt_iff_toRat_lt`: comparison is the comparison of the numbers;
* `ofInt_of_same`: a whole number that single precision holds is held by `ofInt`;
* `toInt?_ofInt_iff`: `toInt?` tells whether it does;
* `saturate_of_same`, `round_of_same`: whole numbers stay what they are.
-/

namespace NeuralNet

namespace BinaryFormat

variable {f : BinaryFormat}

/-- The number at a place on the number line, both zeros at the same place. -/
def signedValue (f : BinaryFormat) (k : Int) : ℚ :=
  if k < 0 then -f.value k.natAbs else f.value k.natAbs

theorem signedValue_lt_iff (f : BinaryFormat) {a b : Int} :
    f.signedValue a < f.signedValue b ↔ a < b := by
  have hmono : StrictMono f.signedValue := by
    intro a b hab
    unfold signedValue
    by_cases ha : a < 0
    · rw [if_pos ha]
      have hpos : 0 < f.value a.natAbs := value_pos (by omega)
      by_cases hb : b < 0
      · rw [if_pos hb]
        exact neg_lt_neg (value_strictMono f (by omega))
      · rw [if_neg hb]
        exact lt_of_lt_of_le (neg_lt_zero.mpr hpos) (value_nonneg f _)
    · rw [if_neg ha, if_neg (by omega)]
      exact value_strictMono f (by omega)
  exact hmono.lt_iff_lt

end BinaryFormat

namespace Datum

/-- A whole number; 0 is positive. -/
def integer (i : Int) : Datum := .finite (i < 0) i.natAbs 0

/-- The ratio of a number that is whole. -/
theorem ratio_of_natural {s q : Nat} {e : Int} (h : (s : ℚ) * 2 ^ e = q) :
    (ratio s e).1 = q * (ratio s e).2 := by
  have hpos := BinaryFormat.ratio_snd_pos s e
  have hdiv := BinaryFormat.ratio_div s e
  rw [h, div_eq_iff (by exact_mod_cast hpos.ne')] at hdiv
  exact_mod_cast hdiv

end Datum

namespace Single

open BinaryFormat

variable {a b : Single} {i j : Int}

theorem magnitudes_single : single.magnitudes = 0x80000000 := by decide

theorem infinityWord_single : single.infinityWord = 0x7f800000 := by decide

theorem toNat_bits_lt (a : Single) : a.bits.toNat < 2 * single.magnitudes := by
  rw [magnitudes_single]
  exact a.bits.toNat_lt

theorem toNat_magnitude (a : Single) : a.magnitude.toNat = single.magnitude a.bits.toNat := by
  rw [BinaryFormat.magnitude, magnitudes_single, Single.magnitude, UInt32.toNat_and]
  exact Nat.and_two_pow_sub_one_eq_mod a.bits.toNat 31

theorem isNegative_eq (a : Single) : a.isNegative = single.negative a.bits.toNat := by
  have h := a.bits.toNat_lt
  rw [negative, magnitudes_single, isNegative, Bool.eq_iff_iff, decide_eq_true_eq, beq_iff_eq,
    UInt32.le_iff_toNat_le]
  change 0x80000000 ≤ a.bits.toNat ↔ _
  omega

theorem isNaN_eq (a : Single) : a.isNaN = a.datum.isNaN := by
  have hn : a.isNaN = decide (single.infinityWord < single.magnitude a.bits.toNat) := by
    rw [isNaN, ← toNat_magnitude, infinityWord_single, decide_eq_decide, UInt32.lt_iff_toNat_lt]
    rfl
  rw [hn, datum, read_eq]
  by_cases h1 : single.magnitude a.bits.toNat < single.infinityWord
  · rw [if_pos h1, decide_eq_false (by omega)]
    rfl
  · rw [if_neg h1]
    by_cases h2 : single.magnitude a.bits.toNat = single.infinityWord
    · rw [if_pos h2, decide_eq_false (by omega)]
      rfl
    · rw [if_neg h2, decide_eq_true (by omega)]
      rfl

/-- A word as a number. -/
theorem toNat_ofWord {w : Nat} (h : w < 2 * single.magnitudes) : w.toUInt32.toNat = w := by
  rw [magnitudes_single] at h
  exact UInt32.toNat_ofNat_of_lt' h

/-- Only NaNs have several words. -/
theorem eq_of_same (hn : a.isNaN = false) (h : a.datum.Same b.datum) : a = b := by
  rw [isNaN_eq] at hn
  have hbits := BinaryFormat.eq_of_same (toNat_bits_lt a) (toNat_bits_lt b) hn h
  cases a
  cases b
  exact congrArg Single.mk (UInt32.toNat_inj.mp hbits)

/-! ## Order -/

/-- The number, with infinity for the first one that is too great. -/
def toRat (a : Single) : ℚ := single.signedValue a.key

theorem lt_iff_toRat_lt (ha : a.isNaN = false) (hb : b.isNaN = false) :
    a.lt b = true ↔ a.toRat < b.toRat := by
  simp only [lt, ha, hb, Bool.not_false, Bool.true_and, decide_eq_true_eq, toRat,
    signedValue_lt_iff]

theorem toRat_of_finite {s : Bool} {n : Nat} {e : Int} (h : a.datum.Same (.finite s n e)) :
    a.toRat = (if s then -1 else 1) * (n * 2 ^ e) := by
  have hm := toNat_magnitude a
  rw [datum, read_eq] at h
  split at h
  · obtain ⟨hs, hv⟩ := h
    rw [toRat, key, isNegative_eq, hs, hm, ← hv]
    change _ = _ * single.value _
    cases s
    · simp [signedValue]
    · by_cases h0 : single.magnitude a.bits.toNat = 0
      · simp [signedValue, h0, value_zero]
      · simp [signedValue, h0]
  · split at h <;> exact h.elim

theorem toRat_of_integer (h : (Datum.integer i).Same a.datum) : a.toRat = i := by
  rw [toRat_of_finite h.symm]
  by_cases hi : i < 0
  · have : ((i.natAbs : Nat) : ℚ) = -i := by
      rw [← Int.cast_natCast, Int.natCast_natAbs, abs_of_neg hi]; simp
    simp [hi, this]
  · have : ((i.natAbs : Nat) : ℚ) = i := by
      rw [← Int.cast_natCast, Int.natCast_natAbs, abs_of_nonneg (by omega)]
    simp [hi, this]

/-! ## Whole numbers -/

theorem datum_ofDatum {d : Datum} (h : d.isNaN = false) :
    (ofDatum d).datum = single.read (single.write d) := by
  rw [datum, ofDatum, toNat_ofWord (isNaN_read_write h).2]

theorem ofDatum_of_same {d : Datum} (hd : d.isNaN = false) (h : d.Same a.datum) :
    ofDatum d = a := by
  rw [ofDatum, write_of_same (toNat_bits_lt a) hd h]
  cases a
  simp

theorem ofInt_of_same (h : (Datum.integer i).Same a.datum) : ofInt i = a :=
  ofDatum_of_same rfl h

/-- Naturals of up to 24 bits are held with either sign. -/
theorem same_ofDatum (s : Bool) {q : Nat} (h : q < 2 ^ 24) :
    (Datum.finite s q 0).Same (ofDatum (.finite s q 0)).datum := by
  have hq : (q : ℚ) < 2 ^ 24 := by exact_mod_cast h
  have hinf : single.value single.infinityWord = 2 ^ (128 : ℕ) := value_infinityWord (by decide)
  obtain ⟨v, hv, hs⟩ := exists_same_finite (g := single) s (n := q) (e := 0) h
    (by decide) (by rw [hinf, zpow_zero, mul_one]; exact lt_trans hq (by norm_num))
  have ha : (Datum.finite s q 0).Same (Single.mk v.toUInt32).datum := by
    rw [datum, toNat_ofWord hv]
    exact hs
  rw [ofDatum_of_same rfl ha]
  exact ha

/-- Whole numbers of up to 24 bits are held. -/
theorem same_ofInt (h : i.natAbs < 2 ^ 24) : (Datum.integer i).Same (ofInt i).datum :=
  same_ofDatum (i < 0) h

theorem same_zero : (Datum.integer 0).Same zero.datum := by
  have h : ofInt 0 = zero := by decide
  rw [← h]
  exact same_ofInt (by decide)

theorem not_isNaN_of_integer (h : (Datum.integer i).Same a.datum) : a.isNaN = false := by
  rw [isNaN_eq, ← h.isNaN_eq]
  rfl

theorem datum_of_natural {s : Bool} {q : Nat} (h : (Datum.finite s q 0).Same a.datum) :
    ∃ n e, a.datum = .finite s n e ∧ (Datum.ratio n e).1 = q * (Datum.ratio n e).2 := by
  cases hd : a.datum with
  | finite t n e =>
    rw [hd] at h
    obtain ⟨rfl, hv⟩ := h
    refine ⟨n, e, rfl, Datum.ratio_of_natural ?_⟩
    rw [← hv]
    simp
  | infinity => rw [hd] at h; exact h.elim
  | nan => rw [hd] at h; exact h.elim

theorem datum_of_integer (h : (Datum.integer i).Same a.datum) :
    ∃ n e, a.datum = .finite (i < 0) n e ∧
      (Datum.ratio n e).1 = i.natAbs * (Datum.ratio n e).2 :=
  datum_of_natural h

/-- A whole number from its sign and its magnitude. -/
theorem signed_natAbs (i : Int) :
    (if decide (i < 0) = true then -(i.natAbs : Int) else i.natAbs) = i := by
  by_cases h : i < 0
  · simp only [h, decide_true, if_true]; omega
  · simp only [h, decide_false, Bool.false_eq_true, if_false]; omega

theorem toInt?_of_same (h : (Datum.integer i).Same a.datum) : a.toInt? = some i := by
  obtain ⟨n, e, hd, hr⟩ := datum_of_integer h
  have hpos := ratio_snd_pos n e
  simp only [toInt?, hd]
  rw [hr, Nat.mul_mod_left, if_pos rfl, Nat.mul_div_cancel _ hpos, signed_natAbs]

theorem toInt?_ofInt_iff : (ofInt i).toInt? = some i ↔ (Datum.integer i).Same (ofInt i).datum := by
  refine ⟨fun h => ?_, toInt?_of_same⟩
  obtain ⟨m, -, -, hread⟩ := read_write_finite single (i < 0) i.natAbs 0
  have hd : (ofInt i).datum = single.read (single.write (Datum.integer i)) := datum_ofDatum rfl
  rw [Datum.integer, hread] at hd
  by_cases hm : m < single.infinityWord
  · rw [if_pos hm] at hd
    generalize single.significand m = n, single.minExponent + (single.scale m : Int) = e at hd
    have hpos := ratio_snd_pos n e
    have hdiv := ratio_div n e
    simp only [toInt?, hd] at h
    split at h
    · rename_i hmod
      have hnum := Nat.div_mul_cancel (Nat.dvd_of_mod_eq_zero hmod)
      have habs : (Datum.ratio n e).1 / (Datum.ratio n e).2 = i.natAbs := by
        have hi := Option.some.inj h
        simp only [decide_eq_true_eq] at hi
        split at hi <;> omega
      rw [hd]
      refine ⟨rfl, ?_⟩
      rw [zpow_zero, mul_one, ← hdiv, ← habs, eq_div_iff (by exact_mod_cast hpos.ne')]
      exact_mod_cast hnum
    · cases h
  · rw [if_neg hm] at hd
    simp [toInt?, hd] at h

theorem round_quotient {q den : Nat} (h : 0 < den) : (2 * (q * den) + den) / (2 * den) = q := by
  have hd : den / (2 * den) = 0 := Nat.div_eq_of_lt (by omega)
  rw [Nat.mul_left_comm, Nat.mul_comm q, Nat.mul_add_div (by omega), hd, Nat.add_zero]

theorem saturate_of_natural {s : Bool} {q : Nat} (h : (Datum.finite s q 0).Same a.datum)
    (lo hi : Int) : a.saturate lo hi = Max.max lo (min hi (if s then -(q : Int) else q)) := by
  obtain ⟨n, e, hd, hr⟩ := datum_of_natural h
  simp only [saturate, hd]
  rw [hr, round_quotient (ratio_snd_pos n e)]

theorem saturate_of_same (h : (Datum.integer i).Same a.datum) (lo hi : Int) :
    a.saturate lo hi = Max.max lo (min hi i) := by
  rw [saturate_of_natural h, signed_natAbs]

theorem round_of_same (h : (Datum.integer i).Same a.datum) : a.round = a := by
  obtain ⟨n, e, hd, hr⟩ := datum_of_integer h
  simp only [round, hd]
  rw [hr, round_quotient (ratio_snd_pos n e)]
  exact ofInt_of_same h

/-- A whole number between whole bounds is not moved. -/
theorem clamp_of_same {lo hi : Single} {m n : Int} (h : (Datum.integer i).Same a.datum)
    (hlo : (Datum.integer m).Same lo.datum) (hhi : (Datum.integer n).Same hi.datum)
    (hm : m ≤ i) (hn : i ≤ n) : a.clamp lo hi = a := by
  have ha := not_isNaN_of_integer h
  have h1 : a.lt lo = false := by
    rw [Bool.eq_false_iff, ne_eq, lt_iff_toRat_lt ha (not_isNaN_of_integer hlo), toRat_of_integer h,
      toRat_of_integer hlo, Int.cast_lt]
    omega
  have h2 : hi.lt a = false := by
    rw [Bool.eq_false_iff, ne_eq, lt_iff_toRat_lt (not_isNaN_of_integer hhi) ha, toRat_of_integer h,
      toRat_of_integer hhi, Int.cast_lt]
    omega
  simp [clamp, h1, h2]

end Single

end NeuralNet
