import Mathlib.Analysis.Complex.Trigonometric
import Mathlib.Analysis.SpecialFunctions.Log.Basic
import Mathlib.Analysis.SpecialFunctions.Sqrt
import NeuralNet.Proofs.Number.Exact

/-!
# Real arithmetic

The real numbers, in which also the functions that lead out of a field are exact.
-/

namespace NeuralNet

open Classical in
/-- The real numbers, where `read` says which of them a setting stands for. -/
noncomputable abbrev ExactField.real (read : Single → ℝ) : ExactField ℝ where
  ofNat n := n
  ofSingle := read
  exp := Real.exp
  log := Real.log
  sqrt := Real.sqrt
  tanh := Real.tanh
  sigmoid a := 1 / (1 + Real.exp (-a))
  relu a := max a 0
  isNonpos a := a ≤ 0
  isZero a := a = 0
  peak row := row.max?.getD 0
  argmax row := row.max?.elim 0 row.idxOf
  weightedMean row :=
    let count := (row.map (·.2)).sum
    if count = 0 then none else some ((row.map fun (a, n) => a * n).sum / count)
  toNat? a := if a = ⌊a⌋₊ then some ⌊a⌋₊ else none
  narrow _ := id
  text _ := ""
  ofNat_cast _ := rfl
  weightedMean_row _ := rfl

end NeuralNet
