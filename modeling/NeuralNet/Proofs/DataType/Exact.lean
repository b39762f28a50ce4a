import NeuralNet.Proofs.Checks
import NeuralNet.Proofs.DataType.Element
import NeuralNet.Proofs.Number.Rounding

/-!
# Which elements are decoded

Decoding looks for the number of an element by rounding it and looking back. What it finds and what
it refuses is said here without either: `IsSingle` are the numbers of up to 24 bits whose last bit
is neither too small nor too great, and these are the numbers of single precision,
`exists_same_iff`. An element is decoded to just its number, with its sign, and if it has none of
these it is refused: `decode_elements`.
-/

namespace NeuralNet

namespace Datum

/-- No number, an infinity, or a number of single precision. -/
def IsSingle : Datum → Prop
  | nan _ _ | infinity _ => True
  | finite _ m e => ∃ (n : Nat) (k : Int),
      n < 2 ^ 24 ∧ -149 ≤ k ∧ k ≤ 104 ∧ (m : ℚ) * 2 ^ e = n * 2 ^ k

end Datum

namespace Single

open BinaryFormat (single)

variable {a : Single} {d : Datum} {s : Bool} {n : Nat} {e : Int}

theorem exponent_bounds (h : a.datum = .finite s n e) : -149 ≤ e ∧ e ≤ 104 := by
  have hmin : single.minExponent = -149 := by decide
  have hbits : single.fractionBits = 23 := rfl
  rw [datum, BinaryFormat.read_eq, infinityWord_single] at h
  split at h
  · obtain ⟨-, -, rfl⟩ := Datum.finite.inj h
    have hscale : single.scale (single.magnitude a.bits.toNat) ≤ 253 := by
      rw [BinaryFormat.scale, hbits]
      omega
    omega
  · split at h <;> cases h

/-- A word of single precision stands for the number just if it is one of these. -/
theorem exists_same_iff : (∃ a : Single, d.Same a.datum) ↔ d.IsSingle := by
  constructor
  · rintro ⟨a, h⟩
    cases d with
    | nan | infinity => trivial
    | finite s m e =>
      cases hd : a.datum with
      | nan | infinity => rw [hd] at h; exact h.elim
      | finite t n k =>
        rw [hd] at h
        obtain ⟨hlow, hhigh⟩ := exponent_bounds hd
        exact ⟨n, k, significand_lt_of_datum hd, hlow, hhigh, h.2⟩
  · intro h
    cases d with
    | nan => exact ⟨Single.nan, .of_isNaN rfl (by decide)⟩
    | infinity s =>
      have hpos : Single.infinity.datum = .infinity false := by decide
      have hneg : Single.negInfinity.datum = .infinity true := by decide
      cases s with
      | false => exact ⟨Single.infinity, hpos ▸ .refl _⟩
      | true => exact ⟨Single.negInfinity, hneg ▸ .refl _⟩
    | finite s m e =>
      obtain ⟨n, k, hn, hlow, hhigh, hvalue⟩ := h
      have hlt : (n : ℚ) * 2 ^ k < single.value single.infinityWord := by
        have hinf : single.value single.infinityWord = 2 ^ (128 : ℕ) :=
          BinaryFormat.value_infinityWord (by decide)
        have hn : (n : ℚ) < 2 ^ 24 := by exact_mod_cast hn
        calc (n : ℚ) * 2 ^ k < 2 ^ 24 * 2 ^ k := by gcongr
          _ ≤ 2 ^ 24 * 2 ^ (104 : ℤ) := by gcongr; norm_num
          _ = single.value single.infinityWord := by rw [hinf]; norm_num
      obtain ⟨v, hv, hsame⟩ := BinaryFormat.exists_same_finite (g := single) s hn hlow hlt
      refine ⟨⟨v.toUInt32⟩, ?_⟩
      rw [datum, toNat_ofWord hv]
      exact Datum.Same.trans (c := .finite s n k) ⟨rfl, hvalue⟩ hsame

end Single

namespace DataType

variable {bytes : List UInt8} {elements : List (List UInt8)} {w : Nat}

/-- Bytes are cut into elements. -/
theorem exists_elements {width n : Nat} (h : bytes.length = n * width) :
    ∃ elements : List (List UInt8),
      elements.flatten = bytes ∧ ∀ e ∈ elements, e.length = width := by
  induction n generalizing bytes with
  | zero => exact ⟨[], (List.length_eq_zero_iff.mp (h.trans (Nat.zero_mul _))).symm, by simp⟩
  | succ n ih =>
    rw [Nat.succ_mul] at h
    have hrest : (bytes.drop width).length = n * width := by rw [List.length_drop]; omega
    obtain ⟨elements, hflatten, hwidth⟩ := ih hrest
    refine ⟨bytes.take width :: elements, ?_, List.forall_mem_cons.mpr ⟨?_, hwidth⟩⟩
    · rw [List.flatten_cons, hflatten, List.take_append_drop]
    · rw [List.length_take]
      omega

theorem length_flatten_mod {width : Nat} (h : ∀ e ∈ elements, e.length = width) :
    elements.flatten.length % width = 0 := by
  induction elements with
  | nil => exact Nat.zero_mod width
  | cons e elements ih =>
    obtain ⟨he, h⟩ := List.forall_mem_cons.mp h
    rw [List.flatten_cons, List.length_append, he, Nat.add_mod_left, ih h]

/-- Every element is decoded on its own. -/
theorem decode_flatten (t : DataType) (h : ∀ e ∈ elements, e.length = t.width) :
    t.decode elements.flatten = elements.mapM fun e => t.ofWord (ofLittleEndian e) := by
  induction elements with
  | nil => exact decode_nil t
  | cons e elements ih =>
    obtain ⟨he, h⟩ := List.forall_mem_cons.mp h
    rw [List.flatten_cons, decode_append he (length_flatten_mod h), ih h, List.mapM_cons]

theorem decode_malformed_iff {t : DataType} :
    (∃ fault, t.decode bytes = .error (.malformedStream fault)) ↔
      ¬∃ values, t.decode bytes = .ok values := by
  constructor
  · rintro ⟨fault, herror⟩ ⟨values, hok⟩
    cases herror.symm.trans hok
  · intro h
    cases hd : t.decode bytes with
    | ok values => exact (h ⟨values, hd⟩).elim
    | error e =>
      obtain ⟨fault, rfl⟩ := decode_error hd
      exact ⟨fault, rfl⟩

/-- A word is decoded just if single precision has its number. -/
theorem exists_ofWord_iff (t : DataType) (hw : w < wordCount t.width) :
    (∃ a, t.ofWord w = .ok a) ↔ (t.datum w).IsSingle := by
  rw [← Single.exists_same_iff]
  rcases ofWord_spec t hw with ⟨a, ha, hholds⟩ | ⟨⟨fault, hf⟩, hnone⟩
  · exact ⟨fun _ => ⟨a, hholds⟩, fun _ => ⟨a, ha⟩⟩
  · refine ⟨fun ⟨a, ha⟩ => ?_, fun ⟨a, ha⟩ => (hnone a ha).elim⟩
    cases hf.symm.trans ha

theorem holds_of_ofWord {t : DataType} {a : Single} (hw : w < wordCount t.width)
    (h : t.ofWord w = .ok a) : t.Holds w a := by
  rcases ofWord_spec t hw with ⟨b, hb, hholds⟩ | ⟨⟨fault, hf⟩, -⟩
  · cases h.symm.trans hb
    exact hholds
  · cases hf.symm.trans h

/-- Whole elements are decoded, all of them, just if single precision has the number of each, and
every value is then the number of its element with the same sign, NaN for NaN. Otherwise the stream
is malformed. -/
theorem decode_elements (t : DataType) (bytes : List UInt8) (h : bytes.length % t.width = 0) :
    ∃ elements : List (List UInt8),
      elements.flatten = bytes ∧ (∀ e ∈ elements, e.length = t.width) ∧
        ((∃ values, t.decode bytes = .ok values) ↔
          ∀ e ∈ elements, (t.datum (ofLittleEndian e)).IsSingle) ∧
        (∀ values, t.decode bytes = .ok values →
          List.Forall₂ (fun e (a : Single) => (t.datum (ofLittleEndian e)).Same a.datum)
            elements values) ∧
        ((∃ fault, t.decode bytes = .error (.malformedStream fault)) ↔
          ∃ e ∈ elements, ¬(t.datum (ofLittleEndian e)).IsSingle) := by
  have hlength : bytes.length = bytes.length / t.width * t.width :=
    (Nat.div_mul_cancel (Nat.dvd_of_mod_eq_zero h)).symm
  obtain ⟨elements, rfl, hwidth⟩ := exists_elements hlength
  have hword : ∀ e ∈ elements, ofLittleEndian e < wordCount t.width := fun e he =>
    ofLittleEndian_lt_width (hwidth e he)
  have hok : (∃ values, t.decode elements.flatten = .ok values) ↔
      ∀ e ∈ elements, (t.datum (ofLittleEndian e)).IsSingle := by
    simp only [decode_flatten t hwidth, mapM_eq_ok_iff, exists_forall₂]
    exact forall₂_congr fun e he => exists_ofWord_iff t (hword e he)
  refine ⟨elements, rfl, hwidth, hok, fun values hvalues => ?_, ?_⟩
  · rw [decode_flatten t hwidth, mapM_eq_ok_iff] at hvalues
    have hall := forall₂_and_right hvalues.flip hword
    exact hall.flip.imp fun _ _ h => holds_of_ofWord h.2 h.1
  · rw [decode_malformed_iff, hok]
    push Not
    rfl

/-- The first integer that single precision does not have is refused, although the one before it is
not. -/
theorem decode_elements_odd :
    let bytes : List UInt8 := [0, 0, 0, 1, 1, 0, 0, 1]
    bytes.length % width .int32 = 0 ∧
      decode .int32 bytes = .error (.malformedStream (.inexact .int32 "16777217")) ∧
      ∃ elements : List (List UInt8), elements.flatten = bytes ∧ (∀ e ∈ elements, e.length = 4) ∧
        ∃ e ∈ elements, ¬(datum .int32 (ofLittleEndian e)).IsSingle := by
  intro bytes
  have hlen : bytes.length % width .int32 = 0 := by decide
  have herror : decode .int32 bytes = .error (.malformedStream (.inexact .int32 "16777217")) := by
    decide +kernel
  obtain ⟨elements, hflatten, hwidth, -, -, hrefused⟩ := decode_elements .int32 bytes hlen
  exact ⟨hlen, herror, elements, hflatten, hwidth, hrefused.mp ⟨_, herror⟩⟩

end DataType

end NeuralNet
