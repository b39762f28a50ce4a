import NeuralNet.Proofs.DataType.Quantize
import NeuralNet.Proofs.Number.Order

/-!
# Quantizing as a projection

To quantize is to go to a value of the type. Whoever is there stays, and on the way nobody
overtakes: `quantize_mono`. So it does not matter how often values are quantized, and comparisons of
numbers survive it, if only as equalities.
-/

namespace NeuralNet

open BinaryFormat (half single)

namespace Single

variable {a b : Single} {i j : Int}

theorem IsWhole.le (ha : a.IsWhole i) (hb : b.IsWhole j) (h : i ≤ j) : a.le b = true := by
  rw [le_iff_toRat_le ha.isNaN_eq hb.isNaN_eq, ha.toRat_eq, hb.toRat_eq]
  exact_mod_cast h

/-- Going to half precision and back keeps the order on both ways. -/
theorem narrow_half_mono (h : a.le b = true) :
    (a.narrow .float16).le (b.narrow .float16) = true := by
  obtain ⟨ha, hb, hkey⟩ := le_iff.mp h
  rw [isNaN_eq] at ha hb
  rw [key_eq, key_eq] at hkey
  have hthere := BinaryFormat.place_convert_mono half (by decide) ha hb hkey
  have hnumber : ∀ {c : Single}, c.datum.isNaN = false →
      (half.read (BinaryFormat.convert single half c.bits.toNat)).isNaN = false := fun hc =>
    (BinaryFormat.isNaN_convert BinaryFormat.regular_single BinaryFormat.regular_half _).1.trans hc
  have hback := BinaryFormat.place_convert_mono single (by decide) (hnumber ha) (hnumber hb) hthere
  have hnarrow : ∀ {c : Single}, c.datum.isNaN = false → (c.narrow .float16).isNaN = false :=
    fun hc => by
      rw [isNaN_eq, datum, DataType.bits_narrow_half,
        (BinaryFormat.isNaN_convert BinaryFormat.regular_half BinaryFormat.regular_single _).1]
      exact hnumber hc
  refine le_iff.mpr ⟨hnarrow ha, hnarrow hb, ?_⟩
  rw [key_eq, key_eq, DataType.bits_narrow_half, DataType.bits_narrow_half]
  exact hback

end Single

namespace DataType

variable {t : DataType} {a b : Single} {lo hi : Int}

theorem quantize_le_of_range (hrange : t.range = some (lo, hi)) (ha : ¬t.Drops a) (hb : ¬t.Drops b)
    (h : a.le b = true) : (t.quantize a).le (t.quantize b) = true := by
  obtain ⟨hlow, hhigh⟩ := range_bounds hrange
  exact (isWhole_quantize hrange ha).le (isWhole_quantize hrange hb)
    (Single.saturate_mono hlow hhigh h)

theorem quantize_mono (t : DataType) (h : a.le b = true) :
    (t.quantize a).le (t.quantize b) = true := by
  obtain ⟨ha, hb, -⟩ := Single.le_iff.mp h
  cases t with
  | float32 | float64 => exact h
  | float16 => exact Single.narrow_half_mono h
  | uint8 | int8 =>
    refine quantize_le_of_range rfl ?_ ?_ h
    · exact Bool.eq_false_iff.mp ha
    · exact Bool.eq_false_iff.mp hb
  | int32 | int64 =>
    -- beyond the greatest integer both become the number behind it
    exact Single.ofInt_mono (Single.saturate_mono (by decide) (by decide) h)

/-- A quantized value stays when it is quantized again, NaN as NaN, and of two numbers none
overtakes the other. -/
theorem quantize_projects (t : DataType) :
    (∀ a : Single, (t.quantize (t.quantize a)).Agrees (t.quantize a)) ∧
      ∀ a b : Single, a.le b = true → (t.quantize a).le (t.quantize b) = true :=
  ⟨quantize_quantize t, fun _ _ => quantize_mono t⟩

/-- Neighbours on both sides of the last half that goes down: one becomes the greatest number of
half precision, the other infinity. -/
theorem quantize_projects_half :
    let a : Single := ⟨0x477fefff⟩
    let b : Single := ⟨0x477ff000⟩
    a.le b = true ∧ quantize .float16 a = .ofNat 65504 ∧ quantize .float16 b = .infinity ∧
      (quantize .float16 a).le (quantize .float16 b) = true := by
  intro a b
  have h : a.le b = true := by decide
  exact ⟨h, by decide +kernel, by decide +kernel, (quantize_projects .float16).2 a b h⟩

end DataType

end NeuralNet
