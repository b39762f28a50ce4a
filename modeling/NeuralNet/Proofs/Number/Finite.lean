import Mathlib.Tactic.SplitIfs
import NeuralNet.Proofs.Number.Single

/-!
# Finite numbers

* `isFinite_iff`, `exists_datum_of_isFinite`: what a finite number is;
* `isFinite_iff_of_pos`: a number above 0 is finite or infinity.
-/

namespace NeuralNet

namespace Single

open BinaryFormat (single)

variable {a : Single}

theorem isFinite_iff : a.isFinite = true ↔ single.magnitude a.bits.toNat < single.infinityWord := by
  rw [isFinite, decide_eq_true_iff, UInt32.lt_iff_toNat_lt, toNat_magnitude]
  exact Iff.rfl

theorem exists_datum_of_isFinite (h : a.isFinite = true) : ∃ s n e, a.datum = .finite s n e :=
  ⟨_, _, _, by rw [datum, BinaryFormat.read_eq, if_pos (isFinite_iff.mp h)]⟩

theorem key_of_nonneg (h : zero.key ≤ a.key) : a.key = a.magnitude.toNat := by
  have hzero : zero.key = 0 := by decide
  rw [hzero] at h
  unfold key at h ⊢
  split_ifs at h ⊢ <;> omega

/-- A number above 0 has no sign. -/
theorem toNat_magnitude_of_pos (h : zero.lt a = true) : a.magnitude.toNat = a.bits.toNat := by
  simp only [lt, Bool.and_eq_true, decide_eq_true_eq] at h
  have hzero : zero.key = 0 := by decide
  have hsign : a.isNegative = false := by
    cases hs : a.isNegative with
    | false => rfl
    | true =>
      rw [hzero, key, if_pos hs] at h
      omega
  have hlow := UInt32.lt_iff_toNat_lt.mp (UInt32.not_le.mp (of_decide_eq_false hsign))
  rw [toNat_magnitude]
  exact Nat.mod_eq_of_lt hlow

/-- A number above 0 is finite or infinity. -/
theorem isFinite_iff_of_pos (h : zero.lt a = true) : a.isFinite = true ↔ a ≠ .infinity := by
  have hbits := toNat_magnitude_of_pos h
  simp only [lt, Bool.and_eq_true, Bool.not_eq_true'] at h
  have hnumber := UInt32.le_iff_toNat_le.mp (UInt32.not_lt.mp (of_decide_eq_false h.1.2))
  have htop : (0x7f800000 : UInt32).toNat = 0x7f800000 := rfl
  have hinfinity : a = .infinity ↔ a.bits.toNat = 0x7f800000 := by
    rw [← htop, UInt32.toNat_inj]
    exact ⟨congrArg bits, congrArg mk⟩
  rw [isFinite_iff, ← toNat_magnitude, infinityWord_single, ne_eq, hinfinity]
  omega

end Single

end NeuralNet
