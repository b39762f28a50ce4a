import NeuralNet.Proofs.Checks
import NeuralNet.Proofs.DataType.Element
import NeuralNet.Proofs.Number.Rounding

/-!
# Quantized values in storage

A value that was rounded to its type is read back from storage as it was. There are two exceptions,
`Drops`. The 8-bit integers keep NaN when they round, but have no word for it. Single precision has
neither the greatest 32-bit nor the greatest 64-bit integer: rounding to them gives the next greater
number, which is written as the greatest integer, and that is refused when it is read.

* `keeps_quantize_iff`: of one value;
* `decode_encode_quantize`: of a sequence;
* `quantize_quantize`: in memory there are no exceptions; a rounded value stays when it is rounded
  again.
-/

namespace NeuralNet.DataType

open BinaryFormat (half single double convert)
open Single (Held)

variable {t : DataType} {a b : Single} {i lo hi : Int}

/-! ## Writing and reading -/

theorem word_lt (t : DataType) (a : Single) : t.word a < wordCount t.width := by
  cases t with
  | float32 => exact a.bits.toNat_lt
  | float64 =>
    exact (BinaryFormat.isNaN_convert BinaryFormat.regular_single BinaryFormat.regular_double _).2
  | float16 =>
    exact (BinaryFormat.isNaN_convert BinaryFormat.regular_single BinaryFormat.regular_half _).2
  | uint8 | int8 | int32 | int64 => exact twosComplement_lt _ _

/-- Every value is written and read on its own. -/
theorem decode_encode (t : DataType) (values : List Single) :
    t.decode (t.encode values) = values.mapM fun a => t.ofWord (t.word a) := by
  induction values with
  | nil => exact decode_nil t
  | cons a values ih =>
    have hlen : (t.encode values).length % t.width = 0 := by
      rw [length_encode, Nat.mul_mod_left]
    have hpiece : (t.encodeValue a).length = t.width := length_littleEndian _ _
    have hword : ofLittleEndian (t.encodeValue a) = t.word a := by
      rw [encodeValue, ofLittleEndian_littleEndian, Nat.mod_eq_of_lt (t.word_lt a)]
    have hcons : t.encode (a :: values) = t.encodeValue a ++ t.encode values := rfl
    rw [hcons, decode_append hpiece hlen, hword, ih, List.mapM_cons]

/-- The value is read back from storage. -/
def Keeps (t : DataType) (a : Single) : Prop :=
  ∃ b, t.decode (t.encode [a]) = .ok [b] ∧ b.Agrees a

theorem decode_encode_eq_ok {values read : List Single} :
    t.decode (t.encode values) = .ok read ↔
      List.Forall₂ (fun a b => t.ofWord (t.word a) = .ok b) values read := by
  rw [decode_encode, mapM_eq_ok_iff]

theorem keeps_iff : t.Keeps a ↔ ∃ b, t.ofWord (t.word a) = .ok b ∧ b.Agrees a := by
  unfold Keeps
  simp only [decode_encode_eq_ok, List.forall₂_cons, List.Forall₂.nil, and_true]

/-- Values are read back from storage one and all. -/
theorem decode_encode_iff {values : List Single} :
    (∃ read, t.decode (t.encode values) = .ok read ∧
      List.Forall₂ Single.Agrees read values) ↔ ∀ a ∈ values, t.Keeps a := by
  simp only [decode_encode_eq_ok, keeps_iff]
  constructor
  · rintro ⟨read, hread, hagree⟩
    exact exists_forall₂.mp ⟨read, forall₂_and.mpr ⟨hread, hagree.flip⟩⟩
  · intro h
    obtain ⟨read, hall⟩ := exists_forall₂.mpr h
    obtain ⟨hread, hagree⟩ := forall₂_and.mp hall
    exact ⟨read, hread, hagree.flip⟩

theorem bits_narrow_half (a : Single) :
    (a.narrow .float16).bits.toNat = convert half single (convert single half a.bits.toNat) :=
  Single.toNat_ofWord
    (BinaryFormat.isNaN_convert BinaryFormat.regular_half BinaryFormat.regular_single _).2

theorem isNaN_quantize_of_holds {w : Nat} (h : t.Holds w a) (hn : a.isNaN = true) :
    (t.quantize a).isNaN = true := by
  rw [Single.isNaN_eq] at hn
  have hread := h.isNaN_eq.trans hn
  rw [quantize_eq_narrow, Single.isNaN_eq]
  cases t with
  | float32 | float64 => exact hn
  | float16 =>
    rw [Single.datum, bits_narrow_half,
      (BinaryFormat.isNaN_convert BinaryFormat.regular_half BinaryFormat.regular_single _).1,
      (BinaryFormat.isNaN_convert BinaryFormat.regular_single BinaryFormat.regular_half _).1]
    exact hn
  | uint8 | int8 | int32 | int64 => cases hread

/-- A value that was read is not rounded again. -/
theorem Keeps.quantize (h : t.Keeps a) :
    ∃ b, t.ofWord (t.word a) = .ok b ∧ (t.quantize b).Agrees a := by
  obtain ⟨b, hb, hagree⟩ := keeps_iff.mp h
  refine ⟨b, hb, ?_⟩
  rcases t.ofWord_spec (t.word_lt a) with ⟨b', hb', hholds⟩ | ⟨⟨_, herror⟩, -⟩
  · cases hb.symm.trans hb'
    cases hn : b.isNaN with
    | false =>
      rw [quantize_of_holds (t.word_lt a) hn hholds]
      exact hagree
    | true => exact .inr ⟨isNaN_quantize_of_holds hholds hn, hagree.isNaN_eq ▸ hn⟩
  · cases hb.symm.trans herror

/-- Values that are kept are read as such, and rounding does not change them then. -/
theorem decode_encode_of_keeps {values : List Single} (h : ∀ a ∈ values, t.Keeps a) :
    ∃ read, t.decode (t.encode values) = .ok read ∧
      List.Forall₂ Single.Agrees (read.map t.quantize) values := by
  simp only [decode_encode_eq_ok, List.forall₂_map_left_iff]
  obtain ⟨read, hall⟩ := exists_forall₂.mpr fun a ha => (h a ha).quantize
  obtain ⟨hread, hagree⟩ := forall₂_and.mp hall
  exact ⟨read, hread, hagree.flip⟩

/-! ## Integers -/

/-- The least and the greatest integer of the type. -/
def range : DataType → Option (Int × Int)
  | .float32 | .float64 | .float16 => none
  | .uint8 => some (0, 255)
  | .int8 => some (-128, 127)
  | .int32 => some (-0x80000000, 0x7fffffff)
  | .int64 => some (-0x8000000000000000, 0x7fffffffffffffff)

theorem range_bounds (h : t.range = some (lo, hi)) : lo ≤ 0 ∧ 0 ≤ hi := by
  cases t <;> cases h <;> decide

theorem word_of_range (h : t.range = some (lo, hi)) (a : Single) :
    t.word a = twosComplement t.width (a.saturate lo hi) := by
  cases t <;> cases h <;> rfl

theorem exactInteger_eq_ok : exactInteger t i = .ok a ↔ Held i ∧ a = .ofInt i := by
  unfold exactInteger
  rw [Single.held_iff]
  by_cases h : (Single.ofInt i).toInt? = some i
  · simp [h, eq_comm]
  · simp [h]

theorem ofWord_of_range (h : t.range = some (lo, hi)) (hlo : lo ≤ i) (hhi : i ≤ hi) :
    t.ofWord (twosComplement t.width i) = .ok a ↔ Held i ∧ a = .ofInt i := by
  have hbyte : wordCount 1 = 256 := rfl
  cases t with
  | float32 | float64 | float16 => cases h
  | uint8 =>
    cases h
    have hheld : Held i := Single.same_ofInt (by omega)
    obtain ⟨n, rfl⟩ := Int.eq_ofNat_of_zero_le hlo
    rw [twosComplement_of_lt (by simp only [width]; omega)]
    simp [ofWord, Single.ofNat, hheld, eq_comm]
  | int8 =>
    cases h
    have hheld : Held i := Single.same_ofInt (by omega)
    simp only [ofWord, width]
    rw [ofTwosComplement_twosComplement (by omega) (by omega)]
    simp [hheld, eq_comm]
  | int32 =>
    cases h
    have hcount : wordCount 4 = 0x100000000 := rfl
    simp only [ofWord, width]
    rw [ofTwosComplement_twosComplement (by omega) (by omega), exactInteger_eq_ok]
  | int64 =>
    cases h
    have hcount : wordCount 8 = 0x10000000000000000 := rfl
    simp only [ofWord, width]
    rw [ofTwosComplement_twosComplement (by omega) (by omega), exactInteger_eq_ok]

theorem keeps_of_isWhole (h : t.range = some (lo, hi)) (ha : a.IsWhole i) (hlo : lo ≤ i)
    (hhi : i ≤ hi) : t.Keeps a := by
  have hsat : a.saturate lo hi = i := by
    rw [ha.saturate_eq]
    omega
  refine keeps_iff.mpr ⟨.ofInt i, ?_, ha.held.isWhole.agrees ha⟩
  rw [word_of_range h, hsat]
  exact (ofWord_of_range h hlo hhi).mpr ⟨ha.held, rfl⟩

/-- The values that are not read back although they were rounded: NaN among 8-bit integers, and
whatever exceeds the greatest 32-bit or 64-bit integer. -/
def Drops (t : DataType) (a : Single) : Prop :=
  match t with
  | .float32 | .float64 | .float16 => False
  | .uint8 | .int8 => a.isNaN = true
  | .int32 => (Single.ofInt 0x80000000).le a = true
  | .int64 => (Single.ofInt 0x8000000000000000).le a = true

/-- Single precision does not have the greatest integer of a wide type. -/
theorem not_held_greatest (h : t.range = some (lo, hi)) (hw : 1 < t.width) : ¬Held hi := by
  rw [Single.held_iff]
  cases t with
  | float32 | float64 | float16 => cases h
  | uint8 | int8 => exact absurd hw (by decide)
  | int32 | int64 => cases h; decide

theorem drops_iff (h : t.range = some (lo, hi)) (hw : 1 < t.width) :
    t.Drops a ↔ a.saturate lo hi = hi := by
  have hheld := not_held_greatest h hw
  cases t with
  | float32 | float64 | float16 => cases h
  | uint8 | int8 => exact absurd hw (by decide)
  | int32 | int64 =>
    cases h
    exact (Single.saturate_eq_top_iff hheld (Single.held_iff.mpr (by decide)) (by decide)
      (by decide) (by decide)).symm

/-- The nearest value of an integer type is the nearest whole number of its range. -/
theorem isWhole_quantize (h : t.range = some (lo, hi)) (hkeep : ¬t.Drops a) :
    (t.quantize a).IsWhole (a.saturate lo hi) := by
  rw [quantize_eq_narrow]
  cases t with
  | float32 | float64 | float16 => cases h
  | uint8 =>
    cases h
    have hzero : Single.zero = .ofInt 0 := by decide
    have hlast : Single.ofNat 255 = .ofInt 255 := rfl
    simp only [Single.narrow, hzero, hlast]
    exact Single.isWhole_clamp_round (Bool.eq_false_iff.mpr hkeep) (by decide) (by decide)
      (by decide)
  | int8 =>
    cases h
    have hlast : Single.ofNat 127 = .ofInt 127 := rfl
    simp only [Single.narrow, hlast]
    exact Single.isWhole_clamp_round (Bool.eq_false_iff.mpr hkeep) (by decide) (by decide)
      (by decide)
  | int32 | int64 =>
    rw [drops_iff h (by decide)] at hkeep
    cases h
    exact ((Single.held_saturate (Single.held_iff.mpr (by decide))).resolve_right hkeep).isWhole

theorem keeps_quantize_of_range (h : t.range = some (lo, hi)) (hkeep : ¬t.Drops a) :
    t.Keeps (t.quantize a) := by
  obtain ⟨hlow, hhigh⟩ := range_bounds h
  obtain ⟨hlo, hhi⟩ := Single.saturate_bounds (a := a) hlow hhigh
  exact keeps_of_isWhole h (isWhole_quantize h hkeep) hlo hhi

/-- NaN is written as 0. -/
theorem not_keeps_of_isNaN (h : t.range = some (lo, hi)) (hnan : a.isNaN = true) :
    ¬t.Keeps a := by
  rw [keeps_iff, word_of_range h, Single.saturate_of_isNaN hnan]
  obtain ⟨hlow, hhigh⟩ := range_bounds h
  rintro ⟨b, hb, hagree⟩
  obtain ⟨-, rfl⟩ := (ofWord_of_range h hlow hhigh).mp hb
  have hnumber : (Single.ofInt 0).isNaN = false := by decide
  rw [hagree.isNaN_eq, hnan] at hnumber
  cases hnumber

/-- The greatest integer of a wide type is refused. -/
theorem not_keeps_of_saturate (h : t.range = some (lo, hi)) (hw : 1 < t.width)
    (htop : a.saturate lo hi = hi) : ¬t.Keeps a := by
  rw [keeps_iff, word_of_range h, htop]
  obtain ⟨hlow, hhigh⟩ := range_bounds h
  rintro ⟨b, hb, -⟩
  exact not_held_greatest h hw ((ofWord_of_range h (hlow.trans hhigh) le_rfl).mp hb).1

theorem not_keeps_quantize (h : t.Drops a) : ¬t.Keeps (t.quantize a) := by
  rw [quantize_eq_narrow]
  cases t with
  | float32 | float64 | float16 => exact h.elim
  | uint8 | int8 =>
    exact not_keeps_of_isNaN rfl (Single.isNaN_clamp (Single.isNaN_round h) _ _)
  | int32 | int64 =>
    rw [drops_iff rfl (by decide)] at h
    simp only [Single.narrow]
    rw [h]
    exact not_keeps_of_saturate rfl (by decide) (by decide)

/-! ## Numbers with a point -/

theorem keeps_of_holds (h : t.Holds (t.word a) a) : t.Keeps a := by
  rcases t.ofWord_spec (t.word_lt a) with ⟨b, hb, hholds⟩ | ⟨-, hnone⟩
  · exact keeps_iff.mpr ⟨b, hb, Single.agrees_of_same (hholds.same h)⟩
  · exact (hnone a h).elim

/-- A value of half precision is not rounded again. -/
theorem holds_word_narrow_half (a : Single) :
    Holds .float16 (word .float16 (a.narrow .float16)) (a.narrow .float16) := by
  have hhalf := BinaryFormat.isNaN_convert BinaryFormat.regular_single BinaryFormat.regular_half
    a.bits.toNat
  let v := convert single half a.bits.toNat
  have hsame : (half.read v).Same (single.read (convert half single v)) :=
    BinaryFormat.half_widens_single.same_convert BinaryFormat.regular_half
      BinaryFormat.regular_single v
  have hagain := BinaryFormat.isNaN_convert BinaryFormat.regular_single BinaryFormat.regular_half
    (convert half single v)
  simp only [Holds, datum, word, Single.datum, bits_narrow_half]
  cases hn : (single.read (convert half single v)).isNaN with
  | true => exact .of_isNaN (hagain.1.trans hn) hn
  | false =>
    rw [BinaryFormat.convert_of_same hhalf.2 hn hsame.symm]
    exact hsame

theorem holds_word_quantize (h : t.isFloating = true) (a : Single) :
    t.Holds (t.word (t.quantize a)) (t.quantize a) := by
  rw [quantize_eq_narrow]
  cases t with
  | float32 => exact .refl _
  | float64 =>
    exact (BinaryFormat.single_widens_double.same_convert BinaryFormat.regular_single
      BinaryFormat.regular_double _).symm
  | float16 => exact holds_word_narrow_half a
  | uint8 | int8 | int32 | int64 => cases h

theorem keeps_quantize_of_isFloating (h : t.isFloating = true) (a : Single) :
    t.Keeps (t.quantize a) := keeps_of_holds (holds_word_quantize h a)

/-! ## Rounding twice -/

/-- A value that the type has is not rounded. -/
theorem quantize_agrees_of_holds (h : t.Holds (t.word a) a) : (t.quantize a).Agrees a := by
  cases hn : a.isNaN with
  | false =>
    rw [quantize_of_holds (t.word_lt a) hn h]
    exact Single.agrees_of_same (.refl _)
  | true => exact .inr ⟨isNaN_quantize_of_holds h hn, hn⟩

/-- A whole number of the range is dropped only if it is the greatest. -/
theorem not_drops_of_isWhole (h : t.range = some (lo, hi)) (ha : a.IsWhole i)
    (htop : 1 < t.width → a.saturate lo hi ≠ hi) : ¬t.Drops a := by
  cases t with
  | float32 | float64 | float16 => cases h
  | uint8 | int8 => exact Bool.eq_false_iff.mp ha.isNaN_eq
  | int32 | int64 =>
    rw [drops_iff h (by decide)]
    exact htop (by decide)

theorem quantize_quantize_of_range (h : t.range = some (lo, hi)) (hkeep : ¬t.Drops a) :
    (t.quantize (t.quantize a)).Agrees (t.quantize a) := by
  obtain ⟨hlow, hhigh⟩ := range_bounds h
  obtain ⟨hlo, hhi⟩ := Single.saturate_bounds (a := a) hlow hhigh
  have hwhole := isWhole_quantize h hkeep
  have hsat : (t.quantize a).saturate lo hi = a.saturate lo hi := by
    rw [hwhole.saturate_eq]
    omega
  have htop : 1 < t.width → (t.quantize a).saturate lo hi ≠ hi := fun hw => by
    rw [hsat]
    exact fun heq => hkeep ((drops_iff h hw).mpr heq)
  have hagain := isWhole_quantize h (not_drops_of_isWhole h hwhole htop)
  rw [hsat] at hagain
  exact hagain.agrees hwhole

/-- NaN stays NaN, and what exceeds a wide type becomes one number. -/
theorem quantize_quantize_of_drops (h : t.Drops a) :
    (t.quantize (t.quantize a)).Agrees (t.quantize a) := by
  simp only [quantize_eq_narrow]
  cases t with
  | float32 | float64 | float16 => exact h.elim
  | uint8 =>
    have hnan : (a.narrow .uint8).isNaN = true := Single.isNaN_clamp (Single.isNaN_round h) _ _
    exact .inr ⟨Single.isNaN_clamp (Single.isNaN_round hnan) _ _, hnan⟩
  | int8 =>
    have hnan : (a.narrow .int8).isNaN = true := Single.isNaN_clamp (Single.isNaN_round h) _ _
    exact .inr ⟨Single.isNaN_clamp (Single.isNaN_round hnan) _ _, hnan⟩
  | int32 | int64 =>
    rw [drops_iff rfl (by decide)] at h
    simp only [Single.narrow]
    rw [h]
    exact .inl (by decide +kernel)

/-- A value that was rounded to its type stays when it is rounded again. -/
theorem quantize_quantize (t : DataType) (a : Single) :
    (t.quantize (t.quantize a)).Agrees (t.quantize a) := by
  by_cases hdrop : t.Drops a
  · exact quantize_quantize_of_drops hdrop
  · cases t with
    | float32 | float64 | float16 => exact quantize_agrees_of_holds (holds_word_quantize rfl a)
    | uint8 | int8 | int32 | int64 => exact quantize_quantize_of_range rfl hdrop

/-! ## Quantized values -/

theorem keeps_quantize_iff : t.Keeps (t.quantize a) ↔ ¬t.Drops a := by
  refine ⟨fun hkeep hdrop => not_keeps_quantize hdrop hkeep, fun hkeep => ?_⟩
  cases t with
  | float32 | float64 | float16 => exact keeps_quantize_of_isFloating rfl a
  | uint8 | int8 | int32 | int64 => exact keeps_quantize_of_range rfl hkeep

/-- Quantized values are read back as they were, numbers as equal numbers and NaN as NaN, just if
none of them came from a value that the type drops. -/
theorem decode_encode_quantize (t : DataType) (values : List Single) :
    (∃ read, t.decode (t.encode (values.map t.quantize)) = .ok read ∧
      List.Forall₂ Single.Agrees read (values.map t.quantize)) ↔
      ∀ a ∈ values, ¬t.Drops a := by
  rw [decode_encode_iff, List.forall_mem_map]
  simp only [keeps_quantize_iff]

/-- Beyond the greatest 32-bit and 64-bit integers what was written is refused, and NaN among bytes
is read as 0. -/
theorem decode_encode_quantize_fails :
    decode .int32 (encode .int32 [quantize .int32 (.ofNat 3000000000)]) =
        .error (.malformedStream (.inexact .int32 "2147483647")) ∧
      decode .int64 (encode .int64 [quantize .int64 (.ofNat 10000000000000000000)]) =
        .error (.malformedStream (.inexact .int64 "9223372036854775807")) ∧
      (quantize .uint8 Single.nan).isNaN = true ∧
      decode .uint8 (encode .uint8 [quantize .uint8 Single.nan]) = .ok [Single.zero] := by
  decide +kernel

end NeuralNet.DataType
