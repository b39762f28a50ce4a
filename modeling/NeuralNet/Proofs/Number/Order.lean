import Mathlib.Algebra.Order.Floor.Semifield
import Mathlib.Data.Rat.Floor
import NeuralNet.Proofs.Number.Rounding

/-!
# Rounding keeps the order

A number that is not above another is not above it after both were rounded, to a format or to whole
numbers of a range. Numbers of different sizes are rounded on grids of different width, and there
the power of two between them is on both grids.

* `roundMagnitude_mono`: of magnitudes;
* `place_write_mono`, `place_convert_mono`: of numbers and infinities with their signs;
* `ofInt_mono`, `saturate_mono`: from and to whole numbers.
-/

namespace NeuralNet

namespace BinaryFormat

variable {f g : BinaryFormat} {a b c d : Nat}

theorem div_le_div_of_ratio (h : (a / b : ℚ) ≤ c / d) : a / b ≤ c / d := by
  rw [← Nat.floor_div_eq_div (K := ℚ) a b, ← Nat.floor_div_eq_div (K := ℚ) c d]
  exact Nat.floor_mono h

theorem divEven_mono (hb : 0 < b) (hd : 0 < d) (h : (a / b : ℚ) ≤ c / d) :
    divEven a b ≤ divEven c d := by
  have ha := Nat.div_add_mod a b
  have hc := Nat.div_add_mod c d
  have hq := div_le_div_of_ratio h
  have h : a * d ≤ c * b := by
    rw [div_le_div_iff₀ (by exact_mod_cast hb) (by exact_mod_cast hd)] at h
    exact_mod_cast h
  unfold divEven
  dsimp only
  rcases Nat.lt_or_eq_of_le hq with hlt | heq
  · have h1 : a / b + a / b % 2 ≤ c / d := by omega
    split_ifs <;> omega
  · -- the quotients are the same, and the remainders decide
    have hr : a % b * d ≤ c % d * b := by
      rw [← ha, ← hc, heq] at h
      linarith
    have hle : b ≤ 2 * (a % b) → d ≤ 2 * (c % d) := fun hhalf => by
      by_contra hlt
      have hleft := Nat.mul_le_mul_right d hhalf
      have hright := Nat.mul_lt_mul_of_pos_right (Nat.lt_of_not_le hlt) hb
      linarith
    have hlt : b < 2 * (a % b) → d < 2 * (c % d) := fun hhalf => by
      by_contra hle
      have hleft := Nat.mul_lt_mul_of_pos_right hhalf hd
      have hright := Nat.mul_le_mul_right b (Nat.le_of_not_lt hle)
      linarith
    rw [heq]
    split_ifs <;> omega

/-- The quotient that is rounded when the last bit stands for `2 ^ e`. -/
theorem scaled_div (num den : Nat) (e : Int) :
    ((num <<< (-e).toNat : Nat) : ℚ) / ((den <<< e.toNat : Nat) : ℚ) = num / den * 2 ^ (-e) := by
  have h := shiftLeft_div_shiftLeft num den (-e)
  rwa [neg_neg] at h

theorem shiftLeft_pos (ha : 0 < a) (k : Nat) : 0 < a <<< k := by
  rw [Nat.shiftLeft_eq]
  exact Nat.mul_pos ha (Nat.two_pow_pos k)

/-- What is rounded has no more bits than a significand. -/
theorem divEven_le (hn : 0 < a) (hd : 0 < b) {e : Int}
    (he : floorLog a b - f.fractionBits ≤ e) :
    divEven (a <<< (-e).toNat) (b <<< e.toNat) ≤ 2 * 2 ^ f.fractionBits := by
  have hone : divEven (2 * 2 ^ f.fractionBits) 1 = 2 * 2 ^ f.fractionBits :=
    divEven_of_dvd Nat.one_pos (Nat.mul_one _).symm
  rw [← hone]
  refine divEven_mono (shiftLeft_pos hd _) Nat.one_pos ?_
  have hexp : floorLog a b + 1 + -e ≤ f.fractionBits + 1 := by omega
  rw [scaled_div, Nat.cast_one, div_one]
  calc (a / b : ℚ) * 2 ^ (-e) ≤ 2 ^ (floorLog a b + 1) * 2 ^ (-e) := by
        gcongr
        exact (floorLog_spec hn hd).2.le
    _ = 2 ^ (floorLog a b + 1 + -e) := (zpow_add₀ two_ne_zero _ _).symm
    _ ≤ 2 ^ (f.fractionBits + 1 : ℤ) := zpow_le_zpow_right₀ (by norm_num) hexp
    _ = (2 * 2 ^ f.fractionBits : Nat) := by
        rw [zpow_add_one₀ two_ne_zero, zpow_natCast]
        push_cast
        ring

/-- It has all of them if the exponent is that of the number. -/
theorem le_divEven (hn : 0 < a) (hd : 0 < b) {e : Int}
    (he : e = floorLog a b - f.fractionBits) :
    2 ^ f.fractionBits ≤ divEven (a <<< (-e).toNat) (b <<< e.toNat) := by
  have hone : divEven (2 ^ f.fractionBits) 1 = 2 ^ f.fractionBits :=
    divEven_of_dvd Nat.one_pos (Nat.mul_one _).symm
  rw [← hone]
  refine divEven_mono Nat.one_pos (shiftLeft_pos hd _) ?_
  have hexp : (f.fractionBits : ℤ) = floorLog a b + -e := by omega
  rw [scaled_div, Nat.cast_one, div_one]
  calc ((2 ^ f.fractionBits : Nat) : ℚ) = 2 ^ (f.fractionBits : ℤ) := by
        rw [zpow_natCast]
        push_cast
        rfl
    _ = 2 ^ floorLog a b * 2 ^ (-e) := by rw [hexp, zpow_add₀ two_ne_zero]
    _ ≤ a / b * 2 ^ (-e) := by
        gcongr
        exact (floorLog_spec hn hd).1

theorem floorLog_mono (ha : 0 < a) (hb : 0 < b) (hc : 0 < c) (hd : 0 < d)
    (h : (a / b : ℚ) ≤ c / d) : floorLog a b ≤ floorLog c d := by
  have hlt : (2 : ℚ) ^ floorLog a b < 2 ^ (floorLog c d + 1) :=
    ((floorLog_spec ha hb).1.trans h).trans_lt (floorLog_spec hc hd).2
  have := (zpow_lt_zpow_iff_right₀ (by norm_num : (1 : ℚ) < 2)).mp hlt
  omega

theorem roundMagnitude_mono (f : BinaryFormat) (hb : 0 < b) (hd : 0 < d)
    (h : (a / b : ℚ) ≤ c / d) : f.roundMagnitude a b ≤ f.roundMagnitude c d := by
  rcases Nat.eq_zero_or_pos a with rfl | ha
  · simp [roundMagnitude]
  have hc : 0 < c := by
    have hpos : (0 : ℚ) < a / b := by positivity
    rcases Nat.eq_zero_or_pos c with rfl | hc
    · rw [Nat.cast_zero, zero_div] at h
      exact absurd h (not_le.mpr hpos)
    · exact hc
  have hlog := floorLog_mono ha hb hc hd h
  simp only [roundMagnitude, ha.ne', hc.ne', if_false, Nat.shiftLeft_eq _ f.fractionBits]
  refine min_le_min_right _ ?_
  have hlow : floorLog a b - f.fractionBits ≤
      max f.minExponent (floorLog a b - f.fractionBits) := le_max_right _ _
  have hsame : max f.minExponent (floorLog a b - f.fractionBits) =
      max f.minExponent (floorLog c d - f.fractionBits) ∨
      max f.minExponent (floorLog a b - f.fractionBits) <
        max f.minExponent (floorLog c d - f.fractionBits) ∧
      max f.minExponent (floorLog c d - f.fractionBits) = floorLog c d - f.fractionBits := by
    omega
  have hmin := le_max_left f.minExponent (floorLog a b - f.fractionBits)
  generalize max f.minExponent (floorLog a b - f.fractionBits) = e at hlow hsame hmin ⊢
  generalize max f.minExponent (floorLog c d - f.fractionBits) = e' at hsame ⊢
  rcases hsame with rfl | ⟨hlt, hexact⟩
  · refine Nat.add_le_add_left (divEven_mono (shiftLeft_pos hb _) (shiftLeft_pos hd _) ?_) _
    rw [scaled_div, scaled_div]
    gcongr
  · -- the power of two between the two numbers is on both grids
    have hstep : (e - f.minExponent).toNat + 1 ≤ (e' - f.minExponent).toNat := by omega
    have hleft := divEven_le (f := f) ha hb hlow
    have hright := le_divEven (f := f) hc hd hexact
    have hscale := Nat.mul_le_mul_right (2 ^ f.fractionBits) hstep
    rw [Nat.add_mul] at hscale
    omega

/-! ## Signs -/

/-- Where a word that is no NaN has its number, both zeros at the same place. -/
def place (f : BinaryFormat) (w : Nat) : Int := Single.signed (f.negative w) (f.magnitude w)

end BinaryFormat

namespace Datum

/-- The number of a sign and a magnitude. -/
def rat (s : Bool) (n : Nat) (e : Int) : ℚ := (if s then -1 else 1) * (n * 2 ^ e)

theorem rat_natAbs (i : Int) : rat (i < 0) i.natAbs 0 = i := by
  have hsigned : ∀ (s : Bool) (n : Nat), rat s n 0 = (Single.signed s n : Int) := fun s n => by
    cases s <;> simp [rat, Single.signed]
  rw [hsigned]
  exact congrArg Int.cast (Single.signed_natAbs i)

/-- Order of what words stand for. NaNs have no place in it. -/
inductive Le : Datum → Datum → Prop
  | negInfinity {d : Datum} (number : d.isNaN = false) : Le (.infinity true) d
  | infinity {d : Datum} (number : d.isNaN = false) : Le d (.infinity false)
  | finite {s t : Bool} {n m : Nat} {e k : Int} (le : rat s n e ≤ rat t m k) :
      Le (.finite s n e) (.finite t m k)

/-- A function of magnitudes that keeps their order keeps it with signs too. -/
theorem signed_mono {φ : Nat → Int → Nat}
    (hφ : ∀ {n m : Nat} {e k : Int}, (n : ℚ) * 2 ^ e ≤ m * 2 ^ k → φ n e ≤ φ m k)
    (hzero : ∀ {n : Nat} {e : Int}, (n : ℚ) * 2 ^ e ≤ 0 → φ n e = 0)
    {s t : Bool} {n m : Nat} {e k : Int} (h : rat s n e ≤ rat t m k) :
    Single.signed s (φ n e) ≤ Single.signed t (φ m k) := by
  have hn : (0 : ℚ) ≤ n * 2 ^ e := by positivity
  have hm : (0 : ℚ) ≤ m * 2 ^ k := by positivity
  cases s <;> cases t <;> simp only [rat, Single.signed, if_true, if_false, Bool.false_eq_true,
    one_mul, neg_one_mul, neg_le_neg_iff] at h ⊢
  · exact_mod_cast hφ h
  · rw [hzero (by linarith : (n : ℚ) * 2 ^ e ≤ 0), hzero (by linarith : (m : ℚ) * 2 ^ k ≤ 0)]
    rfl
  · omega
  · have := hφ h
    omega

theorem nearest_mono {n m : Nat} {e k : Int} (h : (n : ℚ) * 2 ^ e ≤ m * 2 ^ k) :
    nearest n e ≤ nearest m k := by
  have hhalf : ∀ n e, (((2 * (ratio n e).1 + (ratio n e).2 : Nat) : ℚ)) /
      ((2 * (ratio n e).2 : Nat) : ℚ) = n * 2 ^ e + 1 / 2 := fun n e => by
    have hpos : ((ratio n e).2 : ℚ) ≠ 0 := by exact_mod_cast (BinaryFormat.ratio_snd_pos n e).ne'
    rw [← BinaryFormat.ratio_div n e]
    push_cast
    field_simp
  refine BinaryFormat.div_le_div_of_ratio ?_
  rw [hhalf, hhalf]
  gcongr

theorem nearest_of_nonpos {n : Nat} {e : Int} (h : (n : ℚ) * 2 ^ e ≤ 0) : nearest n e = 0 := by
  have hzero : nearest 0 0 = 0 := by decide
  have hle := nearest_mono (m := 0) (k := 0) (h.trans (by simp))
  omega

end Datum

namespace BinaryFormat

variable {f g : BinaryFormat} {v w : Nat} {d d' : Datum}

theorem signedValue_signed (f : BinaryFormat) (s : Bool) (m : Nat) :
    f.signedValue (Single.signed s m) = (if s then -1 else 1) * f.value m := by
  cases s with
  | false => simp [signedValue, Single.signed]
  | true =>
    rcases Nat.eq_zero_or_pos m with rfl | hm
    · simp [signedValue, Single.signed, value_zero]
    · simp [signedValue, Single.signed, hm]

theorem signedValue_le_iff (f : BinaryFormat) {a b : Int} :
    f.signedValue a ≤ f.signedValue b ↔ a ≤ b := by
  rw [← not_lt, signedValue_lt_iff, not_lt]

/-- A word that is no NaN is a number or an infinity. -/
theorem read_cases (h : (f.read w).isNaN = false) :
    (f.magnitude w < f.infinityWord ∧ f.read w = .finite (f.negative w)
      (f.significand (f.magnitude w)) (f.minExponent + f.scale (f.magnitude w))) ∨
      (f.magnitude w = f.infinityWord ∧ f.read w = .infinity (f.negative w)) := by
  rw [read_eq] at h ⊢
  split_ifs at h ⊢ with hlt heq
  · exact .inl ⟨hlt, rfl⟩
  · exact .inr ⟨heq, rfl⟩
  · cases h

/-- Words are ordered as what they stand for. -/
theorem read_le (hf : 0 < f.infinityWord) (hv : (f.read v).isNaN = false)
    (hw : (f.read w).isNaN = false) (h : f.place v ≤ f.place w) : (f.read v).Le (f.read w) := by
  have hle := (signedValue_le_iff f).mpr h
  rw [place, place, signedValue_signed, signedValue_signed] at hle
  unfold place Single.signed at h
  rcases read_cases hv with ⟨hmv, hreadv⟩ | ⟨hmv, hreadv⟩
  · rcases read_cases hw with ⟨-, hreadw⟩ | ⟨hmw, hreadw⟩
    · rw [hreadv, hreadw]
      exact .finite hle
    · rw [hreadw]
      cases hs : f.negative w with
      | false => exact .infinity hv
      | true =>
        rw [hs, if_pos rfl] at h
        split at h <;> omega
  · rw [hreadv]
    cases hs : f.negative v with
    | true => exact .negInfinity hw
    | false =>
      -- nothing but itself is above infinity
      rw [hs, if_neg Bool.false_ne_true] at h
      rcases read_cases hw with ⟨hmw, -⟩ | ⟨-, hreadw⟩
      · split at h <;> omega
      · cases ht : f.negative w with
        | false =>
          rw [hreadw, ht]
          exact .infinity rfl
        | true =>
          rw [ht, if_pos rfl] at h
          omega

theorem place_signWord_add {s : Bool} {m : Nat} (h : m < f.magnitudes) :
    f.place (f.signWord s + m) = Single.signed s m := by
  rw [place, magnitude_signWord_add h, negative_signWord_add h]

theorem place_write_finite (g : BinaryFormat) (s : Bool) (n : Nat) (e : Int) :
    g.place (g.write (.finite s n e)) =
      Single.signed s (g.roundMagnitude (Datum.ratio n e).1 (Datum.ratio n e).2) :=
  place_signWord_add (Nat.lt_of_le_of_lt (roundMagnitude_le g _ _) g.infinityWord_lt)

theorem place_write_infinity (g : BinaryFormat) (s : Bool) :
    g.place (g.write (.infinity s)) = Single.signed s g.infinityWord :=
  place_signWord_add g.infinityWord_lt

theorem place_write_bounds (g : BinaryFormat) (hd : d.isNaN = false) :
    -(g.infinityWord : Int) ≤ g.place (g.write d) ∧ g.place (g.write d) ≤ g.infinityWord := by
  cases d with
  | nan => cases hd
  | infinity s =>
    rw [place_write_infinity]
    cases s <;> simp only [Single.signed] <;> split <;> omega
  | finite s n e =>
    have hle := roundMagnitude_le g (Datum.ratio n e).1 (Datum.ratio n e).2
    rw [place_write_finite, Single.signed]
    split <;> omega

theorem place_write_mono (g : BinaryFormat) (h : d.Le d') :
    g.place (g.write d) ≤ g.place (g.write d') := by
  cases h with
  | negInfinity number =>
    rw [place_write_infinity]
    exact (place_write_bounds g number).1
  | infinity number =>
    rw [place_write_infinity]
    exact (place_write_bounds g number).2
  | finite le =>
    have hmono : ∀ {n m : Nat} {e k : Int}, (n : ℚ) * 2 ^ e ≤ m * 2 ^ k →
        g.roundMagnitude (Datum.ratio n e).1 (Datum.ratio n e).2 ≤
          g.roundMagnitude (Datum.ratio m k).1 (Datum.ratio m k).2 := fun h =>
      roundMagnitude_mono g (ratio_snd_pos _ _) (ratio_snd_pos _ _)
        (by rwa [ratio_div, ratio_div])
    have hzero : g.roundMagnitude (Datum.ratio 0 0).1 (Datum.ratio 0 0).2 = 0 := rfl
    rw [place_write_finite, place_write_finite]
    refine Datum.signed_mono hmono (fun h => ?_) le
    have := hmono (m := 0) (k := 0) (h.trans (by simp))
    omega

/-- Words of one format are brought to another in their order. -/
theorem place_convert_mono (g : BinaryFormat) (hf : 0 < f.infinityWord)
    (hv : (f.read v).isNaN = false) (hw : (f.read w).isNaN = false) (h : f.place v ≤ f.place w) :
    g.place (convert f g v) ≤ g.place (convert f g w) := by
  rw [convert, convert, Datum.quiet_of_not_isNaN hv, Datum.quiet_of_not_isNaN hw]
  exact place_write_mono g (read_le hf hv hw h)

end BinaryFormat

namespace Single

open BinaryFormat (single)

variable {a b : Single} {i j l u : Int}

theorem key_eq (a : Single) : a.key = single.place a.bits.toNat := by
  rw [key, isNegative_eq, toNat_magnitude]
  rfl

theorem le_iff : a.le b = true ↔ a.isNaN = false ∧ b.isNaN = false ∧ a.key ≤ b.key := by
  simp [le, and_assoc]

theorem datum_le (h : a.le b = true) : a.datum.Le b.datum := by
  obtain ⟨ha, hb, hkey⟩ := le_iff.mp h
  rw [key_eq, key_eq] at hkey
  exact BinaryFormat.read_le (by decide) (isNaN_eq a ▸ ha) (isNaN_eq b ▸ hb) hkey

theorem key_ofDatum {d : Datum} (h : d.isNaN = false) :
    (ofDatum d).key = single.place (single.write d) := by
  rw [key_eq, ofDatum, toNat_ofWord (BinaryFormat.isNaN_read_write h).2]

theorem isNaN_ofDatum {d : Datum} (h : d.isNaN = false) : (ofDatum d).isNaN = false := by
  rw [isNaN_eq, datum_ofDatum h]
  exact (BinaryFormat.isNaN_read_write h).1

theorem ofInt_mono (h : i ≤ j) : (ofInt i).le (ofInt j) = true := by
  have hle : (Datum.integer i).Le (Datum.integer j) := by
    refine .finite ?_
    rw [Datum.rat_natAbs, Datum.rat_natAbs]
    exact_mod_cast h
  refine le_iff.mpr ⟨isNaN_ofDatum rfl, isNaN_ofDatum rfl, ?_⟩
  rw [ofInt, ofInt, key_ofDatum rfl, key_ofDatum rfl]
  exact BinaryFormat.place_write_mono single hle

/-- The nearest whole numbers of a range are in the order of the numbers. -/
theorem saturate_mono (hl : l ≤ 0) (hu : 0 ≤ u) (h : a.le b = true) :
    a.saturate l u ≤ b.saturate l u := by
  have hle := datum_le h
  generalize hda : a.datum = da, hdb : b.datum = db at hle
  cases hle with
  | negInfinity number =>
    have ha : a.saturate l u = l := by simp only [saturate, hda, if_true]
    rw [ha]
    exact (saturate_bounds hl hu).1
  | infinity number =>
    have hb : b.saturate l u = u := by simp [saturate, hdb]
    rw [hb]
    exact (saturate_bounds hl hu).2
  | finite le =>
    have hsigned := Datum.signed_mono Datum.nearest_mono Datum.nearest_of_nonpos le
    rw [saturate_of_finite hda, saturate_of_finite hdb]
    omega

end Single

end NeuralNet
