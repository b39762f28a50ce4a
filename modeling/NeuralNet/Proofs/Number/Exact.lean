import Mathlib.Algebra.Field.Rat
import Mathlib.Algebra.Order.Ring.Unbundled.Rat
import NeuralNet.Number.Scalar
import NeuralNet.Proofs.Number.Single

/-!
# Exact arithmetic

Numbers whose sums and products are those of a commutative ring. What an array adds up to does then
not depend on the order, and every gradient is additive in the one it was made from. In a field where
counts and means are exact too, a mean does not depend on how it is taken.
-/

namespace NeuralNet

class ExactScalar (α : Type) extends CommRing α, Scalar α where
  add_div : ∀ a b c : α, (a + b) / c = a / c + b / c

namespace ExactScalar

/-- Every commutative ring will do for computations that stay in it. The functions that lead out of
it have a stand-in. -/
abbrev ofCommRing (R : Type) [CommRing R] : ExactScalar R where
  div _ _ := 0
  ofNat n := n
  ofSingle _ := 0
  exp := id
  log := id
  sqrt := id
  tanh := id
  sigmoid := id
  relu := id
  isNonpos _ := false
  isZero _ := false
  peak _ := 0
  argmax _ := 0
  weightedMean _ := none
  toNat? _ := none
  narrow _ := id
  text _ := ""
  add_div _ _ _ := (add_zero 0).symm

variable {α : Type} [ExactScalar α]

theorem sumUpTo_eq_sum (n : Nat) (f : Nat → α) :
    Scalar.sumUpTo n f = ((List.range n).map f).sum := by
  induction n with
  | zero => rfl
  | succ n ih => simp [Scalar.sumUpTo, List.range_succ, ih]

theorem sumUpTo_add (n : Nat) (f g : Nat → α) :
    Scalar.sumUpTo n (fun i => f i + g i) = Scalar.sumUpTo n f + Scalar.sumUpTo n g := by
  simp only [sumUpTo_eq_sum, List.sum_map_add]

end ExactScalar

/-- The same with exact quotients, for counts and means too. -/
class ExactField (α : Type) extends Field α, Scalar α, CharZero α where
  ofNat_cast : ∀ n : Nat, Scalar.ofNat n = (n : α)
  weightedMean_row : ∀ row : List (α × Nat), Scalar.weightedMean row =
    if (row.map (·.2)).sum = 0 then none
    else some ((row.map fun p => p.1 * (p.2 : α)).sum / ((row.map (·.2)).sum : Nat))

namespace ExactField

variable {α : Type} [ExactField α]

instance : ExactScalar α where
  add_div := add_div

-- The fields of the class are about its own operations, not about those of `Scalar`.
theorem ofNat_eq (n : Nat) : (Scalar.ofNat n : α) = n := ofNat_cast n

theorem weightedMean_eq (row : List (α × Nat)) : Scalar.weightedMean row =
    if (row.map (·.2)).sum = 0 then none
    else some ((row.map fun p => p.1 * (p.2 : α)).sum / ((row.map (·.2)).sum : Nat)) :=
  weightedMean_row row

end ExactField

instance : ExactScalar ℤ := .ofCommRing ℤ

/-- The rational numbers. The functions that lead out of them have a stand-in. -/
instance : ExactScalar ℚ where
  ofNat n := n
  ofSingle a := a.toRat
  exp := id
  log := id
  sqrt := id
  tanh := id
  sigmoid := id
  relu a := max a 0
  isNonpos a := a ≤ 0
  isZero a := a == 0
  peak row := row.max?.getD 0
  argmax row := row.max?.elim 0 row.idxOf
  weightedMean row :=
    let count := (row.map (·.2)).sum
    if count = 0 then none else some ((row.map fun (a, n) => a * n).sum / count)
  toNat? a := if a.den = 1 ∧ 0 ≤ a.num then some a.num.toNat else none
  narrow _ := id
  text a := toString a
  add_div a b c := add_div a b c

instance : ExactField ℚ where
  ofNat_cast _ := rfl
  weightedMean_row _ := rfl

end NeuralNet
