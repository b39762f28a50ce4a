import NeuralNet.DataType.Codec
import NeuralNet.Number.Scalar
import NeuralNet.Proofs.Number.Single

/-!
# Elements in storage

* `ofWord_spec`: a word is read as the number that it stands for, and refused if single precision
  does not hold that number;
* `word_of_holds`, `quantize_of_holds`: what was read is neither rounded again nor written
  otherwise;
* `decode_spec`: the same for a sequence of elements.
-/

namespace NeuralNet

/-! ## Two's complement -/

theorem twosComplement_ofTwosComplement {width n : Nat} (h : n < wordCount width) :
    twosComplement width (ofTwosComplement width n) = n := by
  unfold twosComplement ofTwosComplement
  split
  · rw [Int.emod_eq_of_lt (by omega) (by omega), Int.toNat_natCast]
  · rw [← Int.add_emod_right, Int.sub_add_cancel, Int.emod_eq_of_lt (by omega) (by omega),
      Int.toNat_natCast]

theorem twosComplement_lt (width : Nat) (i : Int) : twosComplement width i < wordCount width := by
  have hpos : 0 < wordCount width := by simp [wordCount, Nat.one_shiftLeft]
  have hlt := Int.emod_lt_of_pos i (Int.natCast_pos.mpr hpos)
  unfold twosComplement
  omega

theorem ofTwosComplement_twosComplement {width : Nat} {i : Int}
    (hlo : -(wordCount width : Int) ≤ 2 * i) (hhi : 2 * i < wordCount width) :
    ofTwosComplement width (twosComplement width i) = i := by
  unfold twosComplement ofTwosComplement
  rcases Int.lt_or_le i 0 with hneg | hpos
  · rw [← Int.add_emod_right, Int.emod_eq_of_lt (by omega) (by omega), if_neg (by omega)]
    omega
  · rw [Int.emod_eq_of_lt hpos (by omega), if_pos (by omega)]
    omega

theorem twosComplement_of_lt {width n : Nat} (h : n < wordCount width) :
    twosComplement width n = n := by
  rw [twosComplement, Int.emod_eq_of_lt (by omega) (by omega), Int.toNat_natCast]

theorem ofTwosComplement_bounds {width n : Nat} (h : n < wordCount width) :
    -(wordCount width : Int) ≤ 2 * ofTwosComplement width n ∧
      2 * ofTwosComplement width n < wordCount width := by
  unfold ofTwosComplement
  split <;> omega

namespace DataType

open BinaryFormat (half single double convert)

variable {t : DataType} {w : Nat} {a b : Single}

theorem width_pos (t : DataType) : 0 < t.width := by
  cases t <;> decide

theorem ofTag?_eq_some {b : UInt8} {type : DataType} :
    ofTag? b = some type ↔ type.tag = b := by
  constructor
  · intro h
    have := List.find?_some h
    simpa using this
  · rintro rfl
    cases type <;> rfl

theorem ofTag?_eq_none {b : UInt8} : ofTag? b = none ↔ 6 < b := by
  have hlt := b.toNat_lt
  rw [ofTag?, List.find?_eq_none]
  simp only [all, List.forall_mem_cons, tag, beq_iff_eq, ← UInt8.toNat_inj,
    UInt8.lt_iff_toNat_lt]
  simp
  omega

/-- The number that a word of the type stands for. -/
def datum (t : DataType) (w : Nat) : Datum :=
  match t with
  | .float32 => single.read w
  | .float64 => double.read w
  | .float16 => half.read w
  | .uint8 => .integer w
  | .int8 => .integer (ofTwosComplement 1 w)
  | .int32 => .integer (ofTwosComplement 4 w)
  | .int64 => .integer (ofTwosComplement 8 w)

/-- Single precision has the number of a word. -/
def Holds (t : DataType) (w : Nat) (a : Single) : Prop := (t.datum w).Same a.datum

theorem Holds.same (h : t.Holds w a) (k : t.Holds w b) : a.datum.Same b.datum :=
  Datum.Same.trans (Datum.Same.symm h) k

/-! ## Reading -/

theorem exactInteger_spec (t : DataType) (i : Int) :
    (∃ a, exactInteger t i = .ok a ∧ (Datum.integer i).Same a.datum) ∨
      (∃ fault, exactInteger t i = .error (.malformedStream fault)) ∧
        ∀ a : Single, ¬(Datum.integer i).Same a.datum := by
  unfold exactInteger
  by_cases h : (Single.ofInt i).toInt? = some i
  · left
    exact ⟨_, if_pos h, Single.toInt?_ofInt_iff.mp h⟩
  · right
    refine ⟨⟨_, if_neg h⟩, fun a ha => h ?_⟩
    rw [Single.ofInt_of_same ha]
    exact Single.toInt?_of_same ha

theorem exactDouble_spec (hw : w < 2 * double.magnitudes) :
    (∃ a, exactDouble w = .ok a ∧ (double.read w).Same a.datum) ∨
      (∃ fault, exactDouble w = .error (.malformedStream fault)) ∧
        ∀ a : Single, ¬(double.read w).Same a.datum := by
  obtain ⟨hnan, hlt⟩ := BinaryFormat.isNaN_convert BinaryFormat.regular_double
    BinaryFormat.regular_single w
  let a : Single := ⟨(convert double single w).toUInt32⟩
  have hbits : a.bits.toNat = convert double single w := Single.toNat_ofWord hlt
  have hdatum : a.datum = single.read (convert double single w) := by rw [Single.datum, hbits]
  have hisNaN : a.isNaN = (double.read w).isNaN := by rw [Single.isNaN_eq, hdatum, hnan]
  have hwide := BinaryFormat.single_widens_double.same_convert BinaryFormat.regular_single
    BinaryFormat.regular_double (convert double single w)
  have hdef : exactDouble w =
      if a.isNaN || convert single double (convert double single w) == w then .ok a
      else .error (.malformedStream
        (.inexact .float64 (Decimal.text Decimal.plain .double (double.read w)))) := rfl
  rw [hdef]
  cases hn : (double.read w).isNaN with
  | true =>
    left
    rw [hn] at hisNaN
    refine ⟨a, if_pos (by simp [hisNaN]), .of_isNaN hn ?_⟩
    rw [← Single.isNaN_eq, hisNaN]
  | false =>
    rw [hn] at hisNaN
    by_cases h : convert single double (convert double single w) = w
    · left
      refine ⟨a, if_pos (by simp [h]), ?_⟩
      rw [h] at hwide
      rw [hdatum]
      exact hwide.symm
    · right
      refine ⟨⟨_, if_neg (by simp [hisNaN, h])⟩, fun b hb => h ?_⟩
      -- a number that single precision has would have been found and would come back
      rw [BinaryFormat.convert_of_same (Single.toNat_bits_lt b) hn hb]
      exact BinaryFormat.convert_of_same hw (hb.isNaN_eq ▸ hn) hb.symm

/-- A word is read as the number that it stands for, or refused because single precision does not
have it. -/
theorem ofWord_spec (t : DataType) (hw : w < wordCount t.width) :
    (∃ a, t.ofWord w = .ok a ∧ t.Holds w a) ∨
      (∃ fault, t.ofWord w = .error (.malformedStream fault)) ∧ ∀ a, ¬t.Holds w a := by
  cases t with
  | float32 =>
    left
    refine ⟨_, rfl, ?_⟩
    rw [Holds, datum, Single.datum, Single.toNat_ofWord hw]
    exact .refl _
  | float64 => exact exactDouble_spec hw
  | float16 =>
    left
    have hc := BinaryFormat.isNaN_convert BinaryFormat.regular_half BinaryFormat.regular_single w
    refine ⟨_, rfl, ?_⟩
    rw [Holds, datum, Single.datum, Single.toNat_ofWord hc.2]
    exact BinaryFormat.half_widens_single.same_convert BinaryFormat.regular_half
      BinaryFormat.regular_single w
  | uint8 =>
    have hw : w < 256 := hw
    left
    exact ⟨_, rfl, Single.same_ofInt (by omega)⟩
  | int8 =>
    have hb := ofTwosComplement_bounds hw
    have hc : wordCount (DataType.width .int8) = 256 := rfl
    left
    exact ⟨_, rfl, Single.same_ofInt (by simp only [width] at hb hc; omega)⟩
  | int32 => exact exactInteger_spec _ _
  | int64 => exact exactInteger_spec _ _

/-! ## Writing what was read -/

theorem quantize_eq_narrow (t : DataType) (a : Single) : t.quantize a = a.narrow t := by
  cases t <;> rfl

theorem saturate_twosComplement {width : Nat} {lo hi : Int} (hw : w < wordCount width)
    (h : (Datum.integer (ofTwosComplement width w)).Same a.datum)
    (hlo : 2 * lo = -(wordCount width : Int)) (hhi : 2 * hi + 2 = wordCount width) :
    a.saturate lo hi = ofTwosComplement width w := by
  have hb := ofTwosComplement_bounds hw
  rw [Single.saturate_of_same h]
  omega

theorem quantize_of_holds (hw : w < wordCount t.width) (hn : a.isNaN = false) (h : t.Holds w a) :
    t.quantize a = a := by
  rw [quantize_eq_narrow]
  unfold Holds at h
  cases t with
  | float32 | float64 => rfl
  | float16 =>
    rw [Single.isNaN_eq] at hn
    simp only [Single.narrow]
    rw [BinaryFormat.convert_of_same hw hn h.symm,
      BinaryFormat.convert_of_same (Single.toNat_bits_lt a) (h.isNaN_eq.trans hn) h]
    cases a
    simp
  | uint8 =>
    have hw : w < 256 := hw
    simp only [Single.narrow]
    rw [Single.round_of_same h]
    exact Single.clamp_of_same (m := 0) (n := 255) h Single.same_zero
      (Single.same_ofInt (by decide)) (by omega) (by omega)
  | int8 =>
    have hb := ofTwosComplement_bounds hw
    have hc : wordCount (DataType.width .int8) = 256 := rfl
    simp only [Single.narrow]
    rw [Single.round_of_same h]
    simp only [width] at hb hc
    exact Single.clamp_of_same (m := -128) (n := 127) h (Single.same_ofInt (by decide))
      (Single.same_ofInt (by decide)) (by omega) (by omega)
  | int32 =>
    simp only [Single.narrow]
    rw [saturate_twosComplement hw h (by decide) (by decide)]
    exact Single.ofInt_of_same h
  | int64 =>
    simp only [Single.narrow]
    rw [saturate_twosComplement hw h (by decide) (by decide)]
    exact Single.ofInt_of_same h

theorem word_of_holds (hw : w < wordCount t.width) (hn : a.isNaN = false) (h : t.Holds w a) :
    t.word a = w := by
  rw [Single.isNaN_eq] at hn
  unfold Holds at h
  cases t with
  | float32 =>
    have hn := h.isNaN_eq.trans hn
    exact (BinaryFormat.eq_of_same hw (Single.toNat_bits_lt a) hn h).symm
  | float64 => exact BinaryFormat.convert_of_same hw hn h.symm
  | float16 => exact BinaryFormat.convert_of_same hw hn h.symm
  | uint8 =>
    have hw' : w < 256 := hw
    have hs : a.saturate 0 255 = w := by rw [Single.saturate_of_same h]; omega
    simp only [word]
    rw [hs]
    exact twosComplement_of_lt hw
  | int8 | int32 | int64 =>
    simp only [word]
    rw [saturate_twosComplement hw h (by decide) (by decide)]
    exact twosComplement_ofTwosComplement hw

/-! ## Sequences -/

/-- The bytes are one element after another, and the values are the numbers they stand for. -/
inductive Elements (t : DataType) : List UInt8 → List Single → Prop
  | nil : Elements t [] []
  | cons {piece bytes : List UInt8} {a : Single} {values : List Single}
      (width : piece.length = t.width) (holds : t.Holds (ofLittleEndian piece) a)
      (rest : Elements t bytes values) : Elements t (piece ++ bytes) (a :: values)

variable {piece bytes : List UInt8} {values others : List Single}

/-- The first element and the others. -/
theorem Elements.of_append (hp : piece.length = t.width) (h : t.Elements (piece ++ bytes) values) :
    ∃ a rest, values = a :: rest ∧ t.Holds (ofLittleEndian piece) a ∧ t.Elements bytes rest := by
  generalize hall : piece ++ bytes = all at h
  cases h with
  | nil =>
    have hpos := t.width_pos
    rw [← hp, (List.append_eq_nil_iff.mp hall).1] at hpos
    cases hpos
  | @cons _ _ a rest width holds helem =>
    obtain ⟨rfl, rfl⟩ := List.append_inj hall (hp.trans width.symm)
    exact ⟨a, rest, rfl, holds, helem⟩

theorem length_encode (t : DataType) (values : List Single) :
    (t.encode values).length = values.length * t.width := by
  induction values with
  | nil => simp [encode]
  | cons a values ih =>
    rw [encode, List.flatMap_cons, List.length_append, encodeValue, length_littleEndian,
      List.length_cons, Nat.succ_mul, Nat.add_comm]
    exact congrArg (· + t.width) ih

theorem ofLittleEndian_lt_width (h : piece.length = t.width) :
    ofLittleEndian piece < wordCount t.width :=
  h ▸ ofLittleEndian_lt piece

theorem decode_nil (t : DataType) : t.decode [] = .ok [] := by
  simp [decode, pieces, pure, Except.pure]

/-- Elements are read one by one. -/
theorem decode_append (h : piece.length = t.width) (hb : bytes.length % t.width = 0) :
    t.decode (piece ++ bytes) = (do
      let a ← t.ofWord (ofLittleEndian piece)
      let values ← t.decode bytes
      return a :: values) := by
  have hlen : (piece ++ bytes).length % t.width = 0 := by
    rw [List.length_append, h, Nat.add_mod_left, hb]
  have hcount : (piece ++ bytes).length / t.width = bytes.length / t.width + 1 := by
    rw [List.length_append, h, Nat.add_div_left _ t.width_pos]
  unfold decode
  rw [if_neg (by omega), if_neg (by omega), hcount, pieces, ← h, List.take_left, List.drop_left,
    List.mapM_cons]

/-- The values that are read are the numbers of the elements. Otherwise some number among the
elements is none of single precision. -/
theorem decode_spec (t : DataType) {n : Nat} (h : bytes.length = n * t.width) :
    (∃ values, t.decode bytes = .ok values ∧ t.Elements bytes values) ∨
      (∃ fault, t.decode bytes = .error (.malformedStream fault)) ∧
        ∀ values, ¬t.Elements bytes values := by
  induction n generalizing bytes with
  | zero =>
    obtain rfl := List.length_eq_zero_iff.mp (h.trans (Nat.zero_mul _))
    exact .inl ⟨[], decode_nil t, .nil⟩
  | succ n ih =>
    rw [Nat.succ_mul] at h
    obtain ⟨piece, rest, rfl, hp⟩ : ∃ piece rest, bytes = piece ++ rest ∧ piece.length = t.width :=
      ⟨bytes.take t.width, bytes.drop t.width, (List.take_append_drop _ _).symm, by
        rw [List.length_take]; omega⟩
    have hr : rest.length = n * t.width := by rw [List.length_append] at h; omega
    rw [decode_append hp (by rw [hr, Nat.mul_mod_left])]
    rcases ofWord_spec t (ofLittleEndian_lt_width hp) with ⟨a, ha, hholds⟩ | ⟨⟨fault, hf⟩, hnone⟩
    · rw [ha]
      rcases ih hr with ⟨values, hv, helem⟩ | ⟨⟨fault, hf⟩, hnone⟩
      · left
        rw [hv]
        exact ⟨a :: values, rfl, .cons hp hholds helem⟩
      · right
        rw [hf]
        refine ⟨⟨fault, rfl⟩, fun values helem => ?_⟩
        obtain ⟨_, others, -, -, hrest⟩ := helem.of_append hp
        exact hnone others hrest
    · right
      rw [hf]
      refine ⟨⟨fault, rfl⟩, fun values helem => ?_⟩
      obtain ⟨a, _, -, hholds, -⟩ := helem.of_append hp
      exact hnone a hholds

theorem decode_error {e : Error} (h : t.decode bytes = .error e) :
    ∃ fault, e = .malformedStream fault := by
  by_cases hlen : bytes.length % t.width = 0
  · have hlen : bytes.length = bytes.length / t.width * t.width := by
      rw [Nat.div_mul_cancel (Nat.dvd_of_mod_eq_zero hlen)]
    rcases t.decode_spec hlen with ⟨_, hok, -⟩ | ⟨⟨fault, herr⟩, -⟩
    · cases h.symm.trans hok
    · cases h.symm.trans herr
      exact ⟨fault, rfl⟩
  · rw [decode, if_pos hlen] at h
    cases h
    exact ⟨_, rfl⟩

theorem Elements.length_eq (h : t.Elements bytes values) :
    bytes.length = values.length * t.width := by
  induction h with
  | nil => simp
  | cons width _ _ ih => rw [List.length_append, List.length_cons, width, ih, Nat.succ_mul]; omega

/-- Elements determine their values up to the payload of NaNs. -/
theorem Elements.same (h : t.Elements bytes values) (k : t.Elements bytes others) :
    List.Forall₂ (fun a b : Single => a.datum.Same b.datum) values others := by
  induction h generalizing others with
  | nil =>
    have hlen := k.length_eq
    have hpos := t.width_pos
    cases others with
    | nil => exact .nil
    | cons b others => rw [List.length_cons, Nat.succ_mul, List.length_nil] at hlen; omega
  | cons width holds _ ih =>
    obtain ⟨b, rest, rfl, hb, hrest⟩ := k.of_append width
    exact .cons (holds.same hb) (ih hrest)

/-- Values that were read are written as the elements they were read from. -/
theorem Elements.encode_quantize (h : t.Elements bytes values)
    (hn : ∀ a ∈ values, a.isNaN = false) : t.encode (values.map t.quantize) = bytes := by
  induction h with
  | nil => rfl
  | @cons piece _ a _ width holds _ ih =>
    have hw := ofLittleEndian_lt_width width
    have ha := hn a List.mem_cons_self
    rw [List.map_cons, encode, List.flatMap_cons, encodeValue, quantize_of_holds hw ha holds,
      word_of_holds hw ha holds, ← width, littleEndian_ofLittleEndian]
    exact congrArg (piece ++ ·) (ih fun b hb => hn b (List.mem_cons_of_mem _ hb))

end DataType

end NeuralNet
