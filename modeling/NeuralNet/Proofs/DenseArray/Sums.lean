import Mathlib.Algebra.BigOperators.Group.Finset.Piecewise
import Mathlib.Algebra.BigOperators.Ring.Finset
import NeuralNet.Proofs.DenseArray.Index

/-!
# Sums over indices

Sums over row-major positions are sums over the indices of an array, taken axis by axis. What is
collected from several places is the sum over those places, and collecting is the adjoint of looking
up: `dot_collect`.
-/

namespace NeuralNet

open Finset (range)

theorem Scalar.sumUpTo_eq_sum_range {α : Type} [AddCommMonoid α] (n : Nat) (f : Nat → α) :
    sumUpTo n f = ∑ k ∈ range n, f k := by
  induction n with
  | zero => rfl
  | succ n ih => rw [sumUpTo, ih, Finset.sum_range_succ]

theorem ExactScalar.sumUpTo_eq_sum_range {α : Type} [ExactScalar α] (n : Nat) (f : Nat → α) :
    Scalar.sumUpTo n f = ∑ k ∈ range n, f k := Scalar.sumUpTo_eq_sum_range n f

namespace Extents

variable {M : Type} [AddCommMonoid M] {s : Extents} {i j : List Nat} {n : Nat}

/-- All indices of an array. -/
def box (s : Extents) : Finset (List Nat) := (range s.size).image s.unravel

theorem mem_box : i ∈ s.box ↔ s.Contains i := by
  simp only [box, Finset.mem_image, Finset.mem_range]
  constructor
  · rintro ⟨k, hk, rfl⟩
    exact contains_unravel hk
  · intro h
    exact ⟨s.ravel i, ravel_lt_size h, unravel_ravel h⟩

theorem ravel_inj (hi : s.Contains i) (hj : s.Contains j) : s.ravel i = s.ravel j ↔ i = j := by
  constructor
  · intro h
    rw [← unravel_ravel hi, h, unravel_ravel hj]
  · intro h
    rw [h]

theorem injOn_unravel (s : Extents) : Set.InjOn s.unravel (range s.size) := by
  intro k hk l hl h
  simp only [Finset.coe_range, Set.mem_Iio] at hk hl
  rw [← ravel_unravel hk, h, ravel_unravel hl]

theorem sum_unravel (s : Extents) (f : List Nat → M) :
    ∑ k ∈ range s.size, f (s.unravel k) = ∑ i ∈ s.box, f i :=
  (Finset.sum_image s.injOn_unravel).symm

theorem sum_box_ravel (s : Extents) (f : Nat → M) :
    ∑ i ∈ s.box, f (s.ravel i) = ∑ k ∈ range s.size, f k := by
  rw [← sum_unravel s fun i => f (s.ravel i)]
  apply Finset.sum_congr rfl
  intro k hk
  rw [ravel_unravel (Finset.mem_range.mp hk)]

theorem box_cons (n : Nat) (s : Extents) :
    box (n :: s) = (range n ×ˢ s.box).image fun p => p.1 :: p.2 := by
  ext i
  simp only [mem_box, Finset.mem_image, Finset.mem_product, Finset.mem_range, Prod.exists]
  constructor
  · intro h
    obtain ⟨j, l, rfl, hj, hl⟩ := exists_of_contains_cons h
    exact ⟨j, l, ⟨hj, hl⟩, rfl⟩
  · rintro ⟨j, l, ⟨hj, hl⟩, rfl⟩
    exact ⟨hj, hl⟩

theorem sum_box_nil (f : List Nat → M) : ∑ i ∈ box [], f i = f [] := by
  have hbox : box [] = {[]} := rfl
  rw [hbox, Finset.sum_singleton]

theorem sum_box_cons (f : List Nat → M) :
    ∑ i ∈ box (n :: s), f i = ∑ j ∈ range n, ∑ l ∈ s.box, f (j :: l) := by
  rw [box_cons, Finset.sum_image, Finset.sum_product]
  intro p _ q _ h
  exact Prod.ext (List.cons.inj h).1 (List.cons.inj h).2

end Extents

namespace DenseArray

theorem sum_eq_sum_box {α : Type} [ExactScalar α] (x : DenseArray α) :
    x.sum = ∑ i ∈ x.extents.box, x.get i := by
  have hsize : x.size = x.extents.size := x.size_eq
  rw [sum, ExactScalar.sumUpTo_eq_sum_range, hsize, ← Extents.sum_unravel]
  apply Finset.sum_congr rfl
  intro k hk
  exact entry_eq_get (Finset.mem_range.mp hk)

section Collect

variable {α : Type} [AddCommMonoid α] {s : Extents} {i : List Nat} {count : Nat}
  {place : Nat → Option (List Nat)} {term : Nat → α}

theorem get_collect (hplace : ∀ j < count, ∀ p, place j = some p → s.Contains p)
    (hi : s.Contains i) : (collect s count place term).get i =
      ∑ j ∈ range count, if place j = some i then term j else 0 := by
  have hextents : (collect s count place term).extents = s := rfl
  rw [get, hextents, entry_collect, if_pos (Extents.ravel_lt_size hi)]
  change ∑ j ∈ range count, _ = _
  apply Finset.sum_congr rfl
  intro j hj
  cases hp : place j with
  | none => simp
  | some p =>
    have hp := hplace j (Finset.mem_range.mp hj) p hp
    simp only [Option.map_some, Option.some.injEq, Extents.ravel_inj hp hi]

end Collect

section Dot

variable {α : Type} [CommRing α] {s : Extents} {count : Nat} {a b : DenseArray α}

/-- The inner product: the products of the values at every index, added up. -/
def dot (a b : DenseArray α) : α := ∑ i ∈ a.extents.box, a.get i * b.get i

theorem dot_eq_sum_entry (h : a.extents = b.extents) :
    a.dot b = ∑ k ∈ range a.extents.size, a.entry k * b.entry k := by
  rw [dot, ← Extents.sum_unravel]
  apply Finset.sum_congr rfl
  intro k hk
  have hk := Finset.mem_range.mp hk
  rw [entry_eq_get hk, entry_eq_get (h ▸ hk), h]

theorem entry_relaid (h : a.extents.size = s.size) (k : Nat) : (a.relaid s).entry k = a.entry k := by
  rw [relaid, entry_generate]
  by_cases hk : k < s.size
  · rw [if_pos hk, Extents.ravel_unravel hk]
  · rw [if_neg hk, entry_of_le (h ▸ Nat.not_lt.mp hk)]

/-- Laying out one operand anew is laying out the other one back. -/
theorem relaid_dot (hsize : a.extents.size = s.size) (hb : b.extents = s) :
    (a.relaid s).dot b = a.dot (b.relaid a.extents) := by
  have hextents : (a.relaid s).extents = b.extents := hb.symm
  have hextents' : a.extents = (b.relaid a.extents).extents := rfl
  have hsize' : b.extents.size = a.extents.size := hb ▸ hsize.symm
  rw [dot_eq_sum_entry hextents, dot_eq_sum_entry hextents', hextents, hsize']
  apply Finset.sum_congr rfl
  intro k _
  rw [entry_relaid hsize, entry_relaid hsize']

theorem dot_comm (h : a.extents = b.extents) : a.dot b = b.dot a := by
  rw [dot, dot, h]
  apply Finset.sum_congr rfl
  intro i _
  exact mul_comm _ _

theorem dot_relaid (hsize : b.extents.size = s.size) (ha : a.extents = s) :
    a.dot (b.relaid s) = (a.relaid b.extents).dot b := by
  have hextents : b.extents = (a.relaid b.extents).extents := rfl
  rw [dot_comm ha, relaid_dot hsize ha, dot_comm hextents]

/-- Where something was added up, the inner product looks up each place that it came from. -/
theorem dot_collect {place : Nat → Option (List Nat)} {term : Nat → α}
    (hplace : ∀ j < count, ∀ p, place j = some p → s.Contains p) (a : DenseArray α) :
    (collect s count place term).dot a =
      ∑ j ∈ range count, term j * (place j).elim 0 a.get := by
  have hextents : (collect s count place term).extents = s := rfl
  rw [dot, hextents]
  calc ∑ i ∈ s.box, (collect s count place term).get i * a.get i
      = ∑ i ∈ s.box, ∑ j ∈ range count, if place j = some i then term j * a.get i else 0 := by
        apply Finset.sum_congr rfl
        intro i hi
        rw [get_collect hplace (Extents.mem_box.mp hi), Finset.sum_mul]
        apply Finset.sum_congr rfl
        intro j _
        rw [ite_mul, zero_mul]
    _ = ∑ j ∈ range count, ∑ i ∈ s.box, if place j = some i then term j * a.get i else 0 :=
        Finset.sum_comm
    _ = ∑ j ∈ range count, term j * (place j).elim 0 a.get := by
        apply Finset.sum_congr rfl
        intro j hj
        cases hp : place j with
        | none => simp
        | some p =>
          have hp := Extents.mem_box.mpr (hplace j (Finset.mem_range.mp hj) p hp)
          simp [hp]

end Dot

/-! ## Directions -/

section Directions

variable {α : Type} [CommRing α] {s : Extents} {x y z d e g : DenseArray α} {i : List Nat}
  {F F' : DenseArray α → DenseArray α → Prop}

/-- The array moved along a direction. -/
def along (x d : DenseArray α) (t : α) : DenseArray α := x.zipWith (fun a b => a + t * b) d

theorem extents_along (x d : DenseArray α) (t : α) : (x.along d t).extents = x.extents := rfl

theorem get_along (hx : x.extents = s) (hd : d.extents = s) (t : α) (hi : s.Contains i) :
    (x.along d t).get i = x.get i + t * d.get i := get_zipWith _ hx hd hi

/-- Where `F` takes an operand to a result: along every direction of the operand `x` the result `y`
has a derivative, and what `g` weighs there is what `d` weighs in that direction. -/
structure PullsBack (F : DenseArray α → DenseArray α → Prop) (x y g d : DenseArray α) : Prop where
  extents : d.extents = x.extents
  dot : ∀ a, a.extents = x.extents → ∃ b, b.extents = y.extents ∧
    (∀ t, F (x.along a t) (y.along b t)) ∧ d.dot a = g.dot b

theorem PullsBack.mono (h : PullsBack F x y g d)
    (hF : ∀ x' y', x'.extents = x.extents → F x' y' → F' x' y') : PullsBack F' x y g d := by
  refine ⟨h.extents, fun a ha => ?_⟩
  obtain ⟨b, hb, hmoves, hdot⟩ := h.dot a ha
  exact ⟨b, hb, fun t => hF _ _ rfl (hmoves t), hdot⟩

/-- The chain rule. -/
theorem PullsBack.comp (h : PullsBack F x y e d) (h' : PullsBack F' y z g e) :
    PullsBack (fun x' z' => ∃ y', F x' y' ∧ F' y' z') x z g d := by
  refine ⟨h.extents, fun a ha => ?_⟩
  obtain ⟨b, hb, hmoves, hdot⟩ := h.dot a ha
  obtain ⟨c, hc, hmoves', hdot'⟩ := h'.dot b hb
  exact ⟨c, hc, fun t => ⟨_, hmoves t, hmoves' t⟩, hdot.trans hdot'⟩

end Directions

end DenseArray

end NeuralNet
