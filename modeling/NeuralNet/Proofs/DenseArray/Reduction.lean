import NeuralNet.Proofs.DenseArray.Broadcast

/-!
# Gradients of broadcast operands

How extents go together does not depend on the order or on the grouping of the operands. A gradient
of the result can be summed back to an operand, unless the operand has an axis of extent 1 where the
result is empty: the sum over no positions is refused there, although it is made along axes that the
operand does not have.

* `Extents.broadcast?_comm`, `Extents.broadcast?_assoc`: the order and the grouping;
* `DenseArray.reduceTo_of_spreads`: what summing back ends with.
-/

namespace NeuralNet

namespace Extents

variable {a b c s ab bc : Extents} {k n : Nat}

/-! ## Order and grouping -/

theorem exists_fromLast {f : Nat → Nat} (h : ∀ k, n ≤ k → f k = 1) :
    ∃ s : Extents, s.length = n ∧ ∀ k, s.fromLast k = f k := by
  refine ⟨((List.range n).map f).reverse, by simp, fun k => ?_⟩
  rw [fromLast, List.reverse_reverse]
  by_cases hk : k < n
  · rw [List.getD_eq_getElem _ _ (by simpa using hk), List.getElem_map, List.getElem_range]
  · have hk := Nat.not_lt.mp hk
    rw [List.getD_eq_default _ _ (by simpa using hk), h k hk]

theorem Broadcasts.swap (h : Broadcasts a b s) : Broadcasts b a s :=
  ⟨h.rank.trans (Nat.max_comm _ _), h.right, h.left, fun k => (h.either k).symm⟩

/-- The last two of three operands go together when all three do from the left. -/
theorem Broadcasts.regroup (h : Broadcasts a b ab) (h' : Broadcasts ab c s) :
    ∃ bc, Broadcasts b c bc ∧ Broadcasts a bc s := by
  let f k := if b.fromLast k = 1 then c.fromLast k else b.fromLast k
  have hbeyond : ∀ k, max b.length c.length ≤ k → f k = 1 := by
    intro k hk
    have hb := fromLast_of_length_le (Nat.le_trans (Nat.le_max_left _ _) hk)
    have hc := fromLast_of_length_le (Nat.le_trans (Nat.le_max_right _ _) hk)
    simp only [f, hb, hc, if_true]
  obtain ⟨bc, hrank, haxis⟩ := exists_fromLast hbeyond
  have haxes : ∀ k, (b.fromLast k = bc.fromLast k ∨ b.fromLast k = 1) ∧
      (c.fromLast k = bc.fromLast k ∨ c.fromLast k = 1) ∧
      (bc.fromLast k = b.fromLast k ∨ bc.fromLast k = c.fromLast k) ∧
      (a.fromLast k = s.fromLast k ∨ a.fromLast k = 1) ∧
      (bc.fromLast k = s.fromLast k ∨ bc.fromLast k = 1) ∧
      (s.fromLast k = a.fromLast k ∨ s.fromLast k = bc.fromLast k) := by
    intro k
    have := h.left k
    have := h.right k
    have := h.either k
    have := h'.left k
    have := h'.right k
    have := h'.either k
    have := haxis k
    grind
  refine ⟨bc, ⟨hrank, fun k => (haxes k).1, fun k => (haxes k).2.1, fun k => (haxes k).2.2.1⟩,
    ⟨?_, fun k => (haxes k).2.2.2.1, fun k => (haxes k).2.2.2.2.1, fun k => (haxes k).2.2.2.2.2⟩⟩
  rw [h'.rank, h.rank, hrank, Nat.max_assoc]

theorem broadcast?_comm (a b : Extents) : a.broadcast? b = b.broadcast? a := by
  refine Option.ext fun s => ?_
  rw [broadcast?_eq_some_iff, broadcast?_eq_some_iff]
  exact ⟨.swap, .swap⟩

theorem broadcast?_assoc (a b c : Extents) :
    (a.broadcast? b).bind (·.broadcast? c) = (b.broadcast? c).bind a.broadcast? := by
  refine Option.ext fun s => ?_
  simp only [Option.bind_eq_some_iff, broadcast?_eq_some_iff]
  constructor
  · rintro ⟨ab, hab, hs⟩
    exact hab.regroup hs
  · rintro ⟨bc, hbc, hs⟩
    obtain ⟨ba, hba, hs⟩ := hbc.swap.regroup hs.swap
    exact ⟨ba, hba.swap, hs.swap⟩

/-! ## Summing back -/

/-- An axis of extent 1 stands for no position at all. -/
def Vanishes (a s : Extents) : Prop := ∃ k < a.length, a.fromLast k = 1 ∧ s.fromLast k = 0

theorem not_vanishes_self (a : Extents) : ¬a.Vanishes a := by
  rintro ⟨k, -, hone, hzero⟩
  exact Nat.one_ne_zero (hone.symm.trans hzero)

theorem reduces_iff_fromLast (hrank : a.length ≤ s.length) :
    a.Reduces (s.drop (s.length - a.length)) ↔
      ∀ k < a.length, a.fromLast k = 1 ∧ 1 < s.fromLast k ∨ a.fromLast k = s.fromLast k := by
  have hreverse : (s.drop (s.length - a.length)).reverse = s.reverse.take a.length := by
    rw [List.reverse_drop, Nat.sub_sub_self hrank]
  unfold Reduces
  rw [← List.forall₂_reverse_iff, hreverse, List.forall₂_iff_get]
  constructor
  · rintro ⟨-, h⟩ k hk
    have hs := lt_reverse (Nat.lt_of_lt_of_le hk hrank)
    have haxis := h k (lt_reverse hk) (by simp; omega)
    rw [fromLast_of_lt (lt_reverse hk), fromLast_of_lt hs]
    simpa using haxis
  · intro h
    refine ⟨by simp [hrank], fun k hk hk' => ?_⟩
    have hka : k < a.length := by simpa using hk
    have haxis := h k hka
    rw [fromLast_of_lt hk, fromLast_of_lt (lt_reverse (Nat.lt_of_lt_of_le hka hrank))] at haxis
    simpa using haxis

theorem Spreads.reduces_iff (h : a.Spreads s) :
    a.Reduces (s.drop (s.length - a.length)) ↔ ¬a.Vanishes s := by
  rw [reduces_iff_fromLast h.rank]
  constructor
  · rintro haxis ⟨k, hk, hone, hzero⟩
    have := haxis k hk
    omega
  · intro hvanishes k hk
    have hzero : ¬(a.fromLast k = 1 ∧ s.fromLast k = 0) := fun hk' => hvanishes ⟨k, hk, hk'⟩
    have := h.axis k
    omega

end Extents

namespace DenseArray

variable {α : Type} [Scalar α] {g : DenseArray α} {target : Extents}

/-- What summing a gradient back to an operand ends with. -/
theorem reduceTo_of_spreads (h : target.Spreads g.extents) :
    (target.Vanishes g.extents ∧ g.reduceTo target = .error
        (.shapeMismatch "gradient reduction" (.extents target) (.extents g.extents))) ∨
      (¬target.Vanishes g.extents ∧ ∃ d, g.reduceTo target = .ok d ∧ d.extents = target) := by
  by_cases hsame : g.extents = target
  · rw [reduceTo, if_pos hsame, ← hsame]
    exact .inr ⟨Extents.not_vanishes_self _, g, rfl, rfl⟩
  · obtain ⟨hreduces, d, hd, hextents⟩ | ⟨hnot, herror⟩ := reduceTo_ends h.rank hsame
    · exact .inr ⟨h.reduces_iff.mp hreduces, d, hd, hextents⟩
    · exact .inl ⟨not_not.mp fun hvanishes => hnot (h.reduces_iff.mpr hvanishes), herror⟩

end DenseArray

end NeuralNet
