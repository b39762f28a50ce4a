import NeuralNet.Proofs.Number.Single

/-!
# Rounding to whole numbers

Single precision has what its numbers are rounded to: they are whole already, or they have no more
than 24 bits before the point. Bringing a number into a range leaves single precision at most at
the upper end of the range.

* `isWhole_round`, `isWhole_clamp_round`: what rounding gives;
* `held_saturate`: single precision has the nearest whole number of a range, or it is the greatest
  of the range;
* `saturate_eq_top_iff`: when it is the greatest.
-/

namespace NeuralNet

namespace Datum

/-- The nearest natural to a magnitude; a half goes up. -/
def nearest (significand : Nat) (exponent : Int) : Nat :=
  (2 * (ratio significand exponent).1 + (ratio significand exponent).2) /
    (2 * (ratio significand exponent).2)

end Datum

namespace Single

open BinaryFormat (single)

variable {a b lo hi : Single} {s : Bool} {n q : Nat} {e i j l u : Int}

/-! ## Numbers that agree -/

/-- Equal as numbers, or both no number. -/
def Agrees (a b : Single) : Prop := a.eqv b = true ∨ a.isNaN = true ∧ b.isNaN = true

theorem le_iff_toRat_le (ha : a.isNaN = false) (hb : b.isNaN = false) :
    a.le b = true ↔ a.toRat ≤ b.toRat := by
  rw [← not_lt, ← lt_iff_toRat_lt hb ha]
  simp [le, lt, ha, hb]

theorem agrees_of_toRat_eq (ha : a.isNaN = false) (hb : b.isNaN = false)
    (h : a.toRat = b.toRat) : a.Agrees b := by
  have hle := (le_iff_toRat_le ha hb).mpr h.le
  have hge := (le_iff_toRat_le hb ha).mpr h.ge
  simp only [le, ha, hb, Bool.not_false, Bool.true_and, decide_eq_true_eq] at hle hge
  left
  simp [eqv, ha, hb, le_antisymm hle hge]

theorem agrees_of_same (h : a.datum.Same b.datum) : a.Agrees b := by
  cases ha : a.isNaN with
  | true =>
    rw [isNaN_eq] at ha
    exact .inr ⟨(isNaN_eq a).trans ha, (isNaN_eq b).trans (h.isNaN_eq.symm.trans ha)⟩
  | false =>
    obtain rfl := eq_of_same ha h
    exact agrees_of_toRat_eq ha ha rfl

theorem Agrees.isNaN_eq (h : a.Agrees b) : a.isNaN = b.isNaN := by
  rcases h with h | ⟨ha, hb⟩
  · simp only [eqv, Bool.and_eq_true, Bool.not_eq_true'] at h
    rw [h.1.1, h.1.2]
  · rw [ha, hb]

/-! ## Whole numbers -/

def signed (s : Bool) (q : Nat) : Int := if s then -(q : Int) else q

/-- Single precision has the whole number. -/
def Held (i : Int) : Prop := (Datum.integer i).Same (ofInt i).datum

/-- The whole number; 0 may have either sign. -/
def IsWhole (a : Single) (i : Int) : Prop :=
  ∃ s q, (Datum.finite s q 0).Same a.datum ∧ signed s q = i

theorem held_iff : Held i ↔ (ofInt i).toInt? = some i := toInt?_ofInt_iff.symm

theorem Held.isWhole (h : Held i) : (ofInt i).IsWhole i := ⟨_, _, h, signed_natAbs i⟩

theorem integer_signed (h : q ≠ 0) : Datum.integer (signed s q) = .finite s q 0 := by
  have hneg : decide (signed s q < 0) = s := by cases s <;> simp [signed]; omega
  have habs : (signed s q).natAbs = q := by cases s <;> simp [signed]
  rw [Datum.integer, hneg, habs]

theorem IsWhole.held (h : a.IsWhole i) : Held i := by
  obtain ⟨s, q, hsame, rfl⟩ := h
  by_cases hq : q = 0
  · subst hq
    have hzero : signed s 0 = 0 := by cases s <;> rfl
    rw [hzero]
    exact same_ofInt (by decide)
  · rw [← integer_signed hq] at hsame
    rw [Held, ofInt_of_same hsame]
    exact hsame

theorem IsWhole.isNaN_eq (h : a.IsWhole i) : a.isNaN = false := by
  obtain ⟨s, q, hsame, -⟩ := h
  rw [Single.isNaN_eq, ← hsame.isNaN_eq]
  rfl

theorem IsWhole.toRat_eq (h : a.IsWhole i) : a.toRat = i := by
  obtain ⟨s, q, hsame, rfl⟩ := h
  rw [toRat_of_finite hsame.symm]
  cases s <;> simp [signed]

theorem IsWhole.saturate_eq (h : a.IsWhole i) (l u : Int) :
    a.saturate l u = Max.max l (min u i) := by
  obtain ⟨s, q, hsame, rfl⟩ := h
  exact saturate_of_natural hsame l u

theorem IsWhole.agrees (ha : a.IsWhole i) (hb : b.IsWhole i) : a.Agrees b :=
  agrees_of_toRat_eq ha.isNaN_eq hb.isNaN_eq (ha.toRat_eq.trans hb.toRat_eq.symm)

/-! ## Rounding -/

theorem significand_lt_of_datum (h : a.datum = .finite s n e) : n < 2 ^ 24 := by
  rw [datum, BinaryFormat.read_eq] at h
  split at h
  · obtain ⟨-, rfl, -⟩ := Datum.finite.inj h
    exact BinaryFormat.significand_lt single _
  · split at h <;> cases h

/-- A number is whole, or it has no more than 24 bits before the point. -/
theorem nearest_cases (h : a.datum = .finite s n e) :
    (n : ℚ) * 2 ^ e = Datum.nearest n e ∨
      Datum.nearest n e < 2 ^ 24 ∧ (n : ℚ) * 2 ^ e < 2 ^ 24 := by
  have hn := significand_lt_of_datum h
  rw [← BinaryFormat.ratio_div n e]
  rcases le_or_gt 0 e with he | he
  · left
    have hden : (Datum.ratio n e).2 = 1 := by
      simp [Datum.ratio, Int.toNat_of_nonpos (Int.neg_nonpos_of_nonneg he)]
    rw [Datum.nearest, hden]
    generalize (Datum.ratio n e).1 = m
    have hm : (2 * m + 1) / (2 * 1) = m := by omega
    rw [hm, Nat.cast_one, div_one]
  · right
    have hnum : (Datum.ratio n e).1 = n := by simp [Datum.ratio, Int.toNat_of_nonpos he.le]
    have hden : 2 ≤ (Datum.ratio n e).2 := by
      obtain ⟨k, rfl⟩ := Int.eq_negSucc_of_lt_zero he
      simp only [Datum.ratio, Int.neg_negSucc, Nat.one_shiftLeft, Int.toNat_natCast]
      exact Nat.le_self_pow (Nat.succ_ne_zero k) 2
    rw [Datum.nearest, hnum]
    generalize (Datum.ratio n e).2 = d at hden
    constructor
    · rw [Nat.div_lt_iff_lt_mul (by omega)]
      omega
    · have hnq : (n : ℚ) < 2 ^ 24 := by exact_mod_cast hn
      have hdq : (1 : ℚ) ≤ d := by exact_mod_cast (by omega : 1 ≤ d)
      exact lt_of_le_of_lt (div_le_self (Nat.cast_nonneg n) hdq) hnq

theorem toRat_cases (h : a.datum = .finite s n e) :
    a.toRat = (signed s (Datum.nearest n e) : Int) ∨
      Datum.nearest n e < 2 ^ 24 ∧ a.toRat < 2 ^ 24 := by
  have hrat : a.toRat = (if s then -1 else 1) * (n * 2 ^ e) :=
    toRat_of_finite (by rw [h]; exact .refl _)
  rw [hrat]
  refine (nearest_cases h).imp (fun hwhole => ?_) fun ⟨hq, hlt⟩ => ⟨hq, ?_⟩
  · rw [hwhole]
    cases s <;> simp [signed]
  · have hpos : (0 : ℚ) ≤ n * 2 ^ e := by positivity
    cases s
    · simpa using hlt
    · simp only [if_true]
      linarith

theorem round_of_finite (h : a.datum = .finite s n e) :
    a.round = ofDatum (.finite s (Datum.nearest n e) 0) := by
  simp only [round, h]
  rfl

theorem saturate_of_finite (h : a.datum = .finite s n e) (l u : Int) :
    a.saturate l u = Max.max l (min u (signed s (Datum.nearest n e))) := by
  simp only [saturate, h]
  rfl

theorem isWhole_round (h : a.datum = .finite s n e) :
    a.round.IsWhole (signed s (Datum.nearest n e)) := by
  rw [round_of_finite h]
  refine ⟨s, Datum.nearest n e, ?_, rfl⟩
  rcases nearest_cases h with hwhole | ⟨hlt, -⟩
  · have hsame : (Datum.finite s (Datum.nearest n e) 0).Same a.datum := by
      rw [h]
      exact ⟨rfl, by rw [hwhole, zpow_zero, mul_one]⟩
    rw [ofDatum_of_same rfl hsame]
    exact hsame
  · exact same_ofDatum s hlt

theorem isNaN_round (h : a.isNaN = true) : a.round.isNaN = true := by
  rw [isNaN_eq] at h
  cases hd : a.datum with
  | nan s p =>
    have hp := BinaryFormat.payload_lt (f := single) (by decide) hd
    obtain ⟨hnan, hlt⟩ := BinaryFormat.isNaN_read_write_quiet (s := s)
      BinaryFormat.regular_single hp
    simp only [round, hd]
    rw [isNaN_eq, datum, ofDatum, toNat_ofWord hlt]
    exact hnan
  | infinity => rw [hd] at h; cases h
  | finite => rw [hd] at h; cases h

/-! ## Ranges -/

theorem isNaN_clamp (h : a.isNaN = true) (lo hi : Single) : (a.clamp lo hi).isNaN = true := by
  simp [clamp, lt, h]

theorem IsWhole.clamp (h : a.IsWhole i) (hlo : lo.IsWhole l) (hhi : hi.IsWhole u) (hle : l ≤ u) :
    (a.clamp lo hi).IsWhole (Max.max l (min u i)) := by
  have hbelow : a.lt lo = true ↔ i < l := by
    rw [lt_iff_toRat_lt h.isNaN_eq hlo.isNaN_eq, h.toRat_eq, hlo.toRat_eq, Int.cast_lt]
  have habove : hi.lt a = true ↔ u < i := by
    rw [lt_iff_toRat_lt hhi.isNaN_eq h.isNaN_eq, hhi.toRat_eq, h.toRat_eq, Int.cast_lt]
  unfold Single.clamp
  by_cases h1 : i < l
  · rw [if_pos (hbelow.mpr h1), show Max.max l (min u i) = l by omega]
    exact hlo
  · rw [if_neg (fun h => h1 (hbelow.mp h))]
    by_cases h2 : u < i
    · rw [if_pos (habove.mpr h2), show Max.max l (min u i) = u by omega]
      exact hhi
    · rw [if_neg (fun h => h2 (habove.mp h)), show Max.max l (min u i) = i by omega]
      exact h

theorem toRat_of_infinity (h : a.datum = .infinity s) :
    a.toRat = if s then -2 ^ 128 else 2 ^ 128 := by
  have hm := toNat_magnitude a
  have hinf : single.value single.infinityWord = 2 ^ (128 : ℕ) :=
    BinaryFormat.value_infinityWord (by decide)
  have hpos : 0 < single.infinityWord := by decide
  rw [datum, BinaryFormat.read_eq] at h
  split at h
  · cases h
  · split at h
    · rename_i heq
      obtain rfl := Datum.infinity.inj h
      rw [toRat, key, isNegative_eq, hm, heq]
      cases single.negative a.bits.toNat
      · simp [BinaryFormat.signedValue, hinf]
      · simp [BinaryFormat.signedValue, hinf, hpos]
    · cases h

theorem toRat_bounds_of_natAbs (h : i.natAbs < 2 ^ 24) :
    (-2 ^ 128 : ℚ) < i ∧ (i : ℚ) < 2 ^ 128 := by
  have h1 : (-2 ^ 24 : ℤ) < i := by omega
  have h2 : i < (2 ^ 24 : ℤ) := by omega
  have h1 : (-2 ^ 24 : ℚ) < i := by exact_mod_cast h1
  have h2 : (i : ℚ) < 2 ^ 24 := by exact_mod_cast h2
  constructor <;> linarith

/-- Small whole numbers are below one infinity and above the other. -/
theorem IsWhole.lt_infinity (ha : a.IsWhole i) (hi : i.natAbs < 2 ^ 24)
    (hb : b.datum = .infinity s) : a.lt b = !s ∧ b.lt a = s := by
  have hn : b.isNaN = false := by rw [Single.isNaN_eq, hb]; rfl
  obtain ⟨hlow, hhigh⟩ := toRat_bounds_of_natAbs hi
  have hbelow := lt_iff_toRat_lt ha.isNaN_eq hn
  have habove := lt_iff_toRat_lt hn ha.isNaN_eq
  rw [ha.toRat_eq, toRat_of_infinity hb] at hbelow habove
  cases s
  · exact ⟨hbelow.mpr hhigh, Bool.eq_false_iff.mpr fun h => (habove.mp h).not_gt hhigh⟩
  · exact ⟨Bool.eq_false_iff.mpr fun h => (hbelow.mp h).not_gt hlow, habove.mpr hlow⟩

/-- A number is rounded and brought between whole bounds: that is the nearest whole number of the
range. -/
theorem isWhole_clamp_round (hn : a.isNaN = false) (hl : l.natAbs < 2 ^ 24)
    (hu : u.natAbs < 2 ^ 24) (hle : l ≤ u) :
    (a.round.clamp (ofInt l) (ofInt u)).IsWhole (a.saturate l u) := by
  have hlo : (ofInt l).IsWhole l := Held.isWhole (same_ofInt hl)
  have hhi : (ofInt u).IsWhole u := Held.isWhole (same_ofInt hu)
  cases hd : a.datum with
  | nan => rw [isNaN_eq, hd] at hn; cases hn
  | finite s n e =>
    rw [saturate_of_finite hd]
    exact (isWhole_round hd).clamp hlo hhi hle
  | infinity s =>
    have hround : a.round.datum = .infinity s := by
      simp only [round, hd, Datum.quiet]
      rw [datum_ofDatum rfl]
      cases s <;> rfl
    simp only [saturate, hd, Single.clamp, (hlo.lt_infinity hl hround).2,
      (hhi.lt_infinity hu hround).1]
    cases s
    · exact hhi
    · exact hlo

theorem saturate_of_isNaN (h : a.isNaN = true) (l u : Int) : a.saturate l u = 0 := by
  rw [isNaN_eq] at h
  cases hd : a.datum with
  | nan => simp only [saturate, hd]
  | infinity => rw [hd] at h; cases h
  | finite => rw [hd] at h; cases h

theorem saturate_bounds (hl : l ≤ 0) (hu : 0 ≤ u) :
    l ≤ a.saturate l u ∧ a.saturate l u ≤ u := by
  cases hd : a.datum with
  | nan => simp only [saturate, hd]; omega
  | infinity s => simp only [saturate, hd]; split <;> omega
  | finite s n e => rw [saturate_of_finite hd]; omega

/-- Single precision has the nearest whole number of a range, unless it is the greatest. -/
theorem held_saturate (hl : Held l) : Held (a.saturate l u) ∨ a.saturate l u = u := by
  cases hd : a.datum with
  | nan =>
    left
    simp only [saturate, hd]
    exact same_ofInt (by decide)
  | infinity s =>
    simp only [saturate, hd]
    cases s
    · exact .inr rfl
    · exact .inl hl
  | finite s n e =>
    have hj := (isWhole_round hd).held
    rw [saturate_of_finite hd]
    generalize signed s (Datum.nearest n e) = j at hj
    by_cases h1 : u ≤ Max.max l (min u j)
    · rcases le_or_gt l u with hle | hlt
      · right; omega
      · left; rwa [show Max.max l (min u j) = l by omega]
    · left
      rcases le_or_gt l j with hle | hlt
      · rwa [show Max.max l (min u j) = j by omega]
      · rwa [show Max.max l (min u j) = l by omega]

/-- A range may end before a number that single precision has, at one that it does not have. What is
brought down to that end is what reaches the number behind it. -/
theorem saturate_eq_top_iff (hu : ¬Held u) (hnext : Held (u + 1)) (hl : l < u)
    (hlow : 2 ^ 24 ≤ u) (hhigh : u < 2 ^ 128) :
    a.saturate l u = u ↔ (ofInt (u + 1)).le a = true := by
  have hwhole := hnext.isWhole
  cases hd : a.datum with
  | nan =>
    have hn : a.isNaN = true := by rw [isNaN_eq, hd]; rfl
    have hne : (0 : Int) ≠ u := by omega
    simp [saturate, hd, le, hn, hne]
  | infinity s =>
    have hn : a.isNaN = false := by rw [isNaN_eq, hd]; rfl
    rw [le_iff_toRat_le hwhole.isNaN_eq hn, hwhole.toRat_eq, toRat_of_infinity hd]
    simp only [saturate, hd]
    cases s
    · have hle : ((u + 1 : Int) : ℚ) ≤ 2 ^ 128 := by exact_mod_cast hhigh
      simpa using hle
    · have hpos : (0 : ℚ) < ((u + 1 : Int) : ℚ) := by exact_mod_cast (by omega : 0 < u + 1)
      have hlt : (-2 ^ 128 : ℚ) < ((u + 1 : Int) : ℚ) := by linarith
      simpa [hl.ne] using hlt
  | finite s n e =>
    have hn : a.isNaN = false := by rw [isNaN_eq, hd]; rfl
    have hj := (isWhole_round hd).held
    rw [le_iff_toRat_le hwhole.isNaN_eq hn, hwhole.toRat_eq, saturate_of_finite hd]
    rcases toRat_cases hd with heq | ⟨hq, hvalue⟩
    · rw [heq, Int.cast_le]
      generalize signed s (Datum.nearest n e) = j at hj
      have hne : j ≠ u := fun h => hu (h ▸ hj)
      omega
    · -- what is rounded at all is far below
      have hj : signed s (Datum.nearest n e) < u := by cases s <;> simp only [signed] <;> omega
      have hnext : ((2 ^ 24 : Int) : ℚ) ≤ ((u + 1 : Int) : ℚ) := by exact_mod_cast (by omega)
      refine ⟨fun h => by omega, fun h => ?_⟩
      exact absurd (hvalue.trans_le (by exact_mod_cast hnext)) (not_lt.mpr h)

end Single

end NeuralNet
