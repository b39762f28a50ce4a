import Mathlib.Data.List.GetD
import NeuralNet.Proofs.DenseArray.SumBack

/-!
# Broadcasting

Axes are compared from the last one on. Where one operand has extent 1, or no axis at all, its
entries stand for every position of the other. What a gradient of the result gives an operand is added
up over the positions that an entry stood for.

* `Extents.broadcast?_eq_some_iff`: which extents go together, and what they are together;
* `Extents.reads_iff`: where an operand is read;
* `DenseArray.reduceTo_dot`: summing back to an operand is the adjoint of repeating the operand.
-/

namespace NeuralNet

open Finset (range)

/-! ## Extents and indices -/

namespace Extents

variable {a b s : Extents} {i j : List Nat} {k m : Nat}

/-- The extent of an axis, counted from the last one on. Where there is no axis it is 1. -/
def fromLast (s : Extents) (k : Nat) : Nat := s.reverse.getD k 1

/-- Every axis of an operand is that of the result, or has extent 1. -/
structure Spreads (a s : Extents) : Prop where
  rank : a.length ≤ s.length
  axis : ∀ k, a.fromLast k = s.fromLast k ∨ a.fromLast k = 1

/-- The extents of the result: both operands spread to it, and every axis comes from one of them. -/
structure Broadcasts (a b s : Extents) : Prop where
  rank : s.length = max a.length b.length
  left : ∀ k, a.fromLast k = s.fromLast k ∨ a.fromLast k = 1
  right : ∀ k, b.fromLast k = s.fromLast k ∨ b.fromLast k = 1
  either : ∀ k, s.fromLast k = a.fromLast k ∨ s.fromLast k = b.fromLast k

/-- For an index `i` of the result an operand is read at `j`: at the same position on every axis that
it has, and at 0 where its extent is 1. -/
structure Reads (s : Extents) (i j : List Nat) : Prop where
  rank : j.length = s.length
  axis : ∀ k < s.length, j.reverse.getD k 0 = if s.fromLast k = 1 then 0 else i.reverse.getD k 0

theorem Broadcasts.spreads_left (h : Broadcasts a b s) : a.Spreads s :=
  ⟨h.rank ▸ Nat.le_max_left _ _, h.left⟩

theorem Broadcasts.spreads_right (h : Broadcasts a b s) : b.Spreads s :=
  ⟨h.rank ▸ Nat.le_max_right _ _, h.right⟩

theorem fromLast_of_length_le (h : s.length ≤ k) : s.fromLast k = 1 := by
  rw [fromLast, List.getD_eq_default _ _ (by rwa [List.length_reverse])]

theorem lt_reverse (h : k < s.length) : k < s.reverse.length := by
  rwa [List.length_reverse]

theorem fromLast_of_lt (h : k < s.reverse.length) : s.fromLast k = s.reverse[k] := by
  rw [fromLast, List.getD_eq_getElem]

theorem length_padTo (h : s.length ≤ m) : (padTo m s).length = m := by
  simp [padTo, h]

/-- Axes that are put in front of the others have the extent that missing axes count for. -/
theorem fromLast_padTo (m : Nat) (s : Extents) (k : Nat) :
    fromLast (padTo m s) k = s.fromLast k := by
  unfold fromLast padTo
  rw [List.reverse_append, List.reverse_replicate]
  by_cases h : k < s.reverse.length
  · rw [List.getD_append _ _ _ _ h]
  · have hle := Nat.not_lt.mp h
    rw [List.getD_append_right _ _ _ _ hle, List.getD_eq_getElem?_getD,
      List.getElem?_getD_replicate_default_eq, List.getD_eq_default _ _ hle]

theorem broadcastAxis?_eq_some_iff {x y z : Nat} : broadcastAxis? x y = some z ↔
    (x = z ∨ x = 1) ∧ (y = z ∨ y = 1) ∧ (z = x ∨ z = y) := by
  unfold broadcastAxis?
  grind

/-- Two operands go together when their axes do, from the last one on. -/
theorem broadcast?_eq_some_iff : broadcast? a b = some s ↔ Broadcasts a b s := by
  have ha := length_padTo (Nat.le_max_left a.length b.length)
  have hb := length_padTo (Nat.le_max_right a.length b.length)
  have hlen := ha.trans hb.symm
  have haxes : broadcast? a b = some s ↔ s.length = max a.length b.length ∧
      ∀ k < s.length, broadcastAxis? (a.fromLast k) (b.fromLast k) = some (s.fromLast k) := by
    unfold broadcast?
    dsimp only
    rw [mapM_eq_some_iff, ← List.forall₂_reverse_iff, List.zip, List.reverse_zipWith hlen,
      List.forall₂_iff_get]
    simp only [List.length_zipWith, List.length_reverse, ha, hb, Nat.min_self, List.get_eq_getElem,
      List.getElem_zipWith]
    constructor
    · rintro ⟨hrank, h⟩
      refine ⟨hrank.symm, fun k hk => ?_⟩
      have hak : k < (padTo (max a.length b.length) a).length := ha.symm ▸ hrank ▸ hk
      have hbk : k < (padTo (max a.length b.length) b).length := hb.symm ▸ hrank ▸ hk
      have haxis := h k (hrank ▸ hk) hk
      rwa [← fromLast_of_lt (lt_reverse hak), ← fromLast_of_lt (lt_reverse hbk),
        ← fromLast_of_lt (lt_reverse hk), fromLast_padTo, fromLast_padTo] at haxis
    · rintro ⟨hrank, h⟩
      refine ⟨hrank.symm, fun k hk hk' => ?_⟩
      have hak : k < (padTo (max a.length b.length) a).length := ha.symm ▸ hk
      have hbk : k < (padTo (max a.length b.length) b).length := hb.symm ▸ hk
      rw [← fromLast_of_lt (lt_reverse hak), ← fromLast_of_lt (lt_reverse hbk),
        ← fromLast_of_lt (lt_reverse hk'), fromLast_padTo, fromLast_padTo]
      exact h k hk'
  rw [haxes]
  simp only [broadcastAxis?_eq_some_iff]
  constructor
  · rintro ⟨hrank, h⟩
    -- Past the axes of the result all extents count as 1.
    have haxis : ∀ k, (a.fromLast k = s.fromLast k ∨ a.fromLast k = 1) ∧
        (b.fromLast k = s.fromLast k ∨ b.fromLast k = 1) ∧
        (s.fromLast k = a.fromLast k ∨ s.fromLast k = b.fromLast k) := by
      intro k
      by_cases hk : k < s.length
      · exact h k hk
      · have hk := Nat.not_lt.mp hk
        have hka : a.length ≤ k := Nat.le_trans (Nat.le_max_left _ _) (hrank ▸ hk)
        have hkb : b.length ≤ k := Nat.le_trans (Nat.le_max_right _ _) (hrank ▸ hk)
        simp only [fromLast_of_length_le hk, fromLast_of_length_le hka, fromLast_of_length_le hkb,
          or_self, and_self]
    exact ⟨hrank, fun k => (haxis k).1, fun k => (haxis k).2.1, fun k => (haxis k).2.2⟩
  · intro h
    exact ⟨h.rank, fun k _ => ⟨h.left k, h.right k, h.either k⟩⟩

/-- An operand is read at one index only. -/
theorem reads_iff (h : s.length ≤ i.length) : s.Reads i j ↔ j = s.project i := by
  have hlen : (i.drop (i.length - s.length)).length = s.length := by
    rw [List.length_drop]
    omega
  have hproject : (s.project i).length = s.length := by
    rw [project, List.length_zipWith, hlen, Nat.min_self]
  have hreverse : (s.project i).reverse =
      s.reverse.zipWith (fun n j => if n = 1 then 0 else j) (i.reverse.take s.length) := by
    rw [project, List.reverse_zipWith hlen.symm, List.reverse_drop, Nat.sub_sub_self h]
  have haxis : ∀ k < s.length, (s.project i).reverse.getD k 0 =
      if s.fromLast k = 1 then 0 else i.reverse.getD k 0 := by
    intro k hk
    have hki : k < i.reverse.length := by
      rw [List.length_reverse]
      omega
    rw [List.getD_eq_getElem _ _ (by rw [List.length_reverse, hproject]; exact hk),
      fromLast_of_lt (lt_reverse hk), List.getD_eq_getElem _ _ hki]
    simp only [hreverse, List.getElem_zipWith, List.getElem_take]
  constructor
  · intro hreads
    apply List.reverse_injective
    refine List.ext_getElem (by simp [hreads.rank, hproject]) fun k hk hk' => ?_
    have hks : k < s.length := by simpa [hreads.rank] using hk
    rw [← List.getD_eq_getElem _ 0 hk, ← List.getD_eq_getElem _ 0 hk', hreads.axis k hks,
      haxis k hks]
  · rintro rfl
    exact ⟨hproject, haxis⟩

theorem contains_iff_fromLast : s.Contains i ↔
    i.length = s.length ∧ ∀ k < s.length, i.reverse.getD k 0 < s.fromLast k := by
  have hforall : s.Contains i ↔ List.Forall₂ (fun n j => j < n) s i := by
    induction s generalizing i with
    | nil => cases i <;> simp [Contains]
    | cons n s ih => cases i <;> simp [Contains, ih]
  rw [hforall, ← List.forall₂_reverse_iff, List.forall₂_iff_get]
  simp only [List.length_reverse, List.get_eq_getElem]
  constructor
  · rintro ⟨hlen, h⟩
    refine ⟨hlen.symm, fun k hk => ?_⟩
    rw [fromLast_of_lt (lt_reverse hk), List.getD_eq_getElem _ _ (lt_reverse (hlen ▸ hk))]
    exact h k hk (hlen ▸ hk)
  · rintro ⟨hlen, h⟩
    refine ⟨hlen.symm, fun k hk hk' => ?_⟩
    have hlt := h k hk
    rwa [fromLast_of_lt (lt_reverse hk), List.getD_eq_getElem _ _ (lt_reverse hk')] at hlt

theorem Spreads.length_le (h : a.Spreads s) (hi : s.Contains i) : a.length ≤ i.length :=
  length_of_contains hi ▸ h.rank

/-- Where an operand is read it has an entry. -/
theorem Spreads.contains_project (h : a.Spreads s) (hi : s.Contains i) :
    a.Contains (a.project i) := by
  have hreads := (reads_iff (h.length_le hi)).mpr rfl
  refine contains_iff_fromLast.mpr ⟨hreads.rank, fun k hk => ?_⟩
  have hlt := (contains_iff_fromLast.mp hi).2 k (Nat.lt_of_lt_of_le hk h.rank)
  rw [hreads.axis k hk]
  by_cases hone : a.fromLast k = 1
  · rw [if_pos hone, hone]
    exact Nat.one_pos
  · rwa [if_neg hone, (h.axis k).resolve_right hone]

end Extents

/-! ## Arrays -/

namespace DenseArray

section

variable {α : Type} [Zero α] {a b y : DenseArray α} {op : α → α → α} {name : String}

/-- Every entry of the result combines the entries that the operands are read at. -/
structure Joins (op : α → α → α) (a b y : DenseArray α) : Prop where
  extents : a.extents.Broadcasts b.extents y.extents
  entry : ∀ i, y.extents.Contains i → ∃ j l, a.extents.Reads i j ∧ b.extents.Reads i l ∧
    y.get i = op (a.get j) (b.get l)

theorem joins_iff : Joins op a b y ↔ a.extents.Broadcasts b.extents y.extents ∧
    ∀ i, y.extents.Contains i →
      y.get i = op (a.get (a.extents.project i)) (b.get (b.extents.project i)) := by
  constructor
  · rintro ⟨hextents, hentry⟩
    refine ⟨hextents, fun i hi => ?_⟩
    obtain ⟨j, l, hj, hl, hget⟩ := hentry i hi
    rw [(Extents.reads_iff (hextents.spreads_left.length_le hi)).mp hj,
      (Extents.reads_iff (hextents.spreads_right.length_le hi)).mp hl] at hget
    exact hget
  · rintro ⟨hextents, hentry⟩
    refine ⟨hextents, fun i hi => ⟨_, _, ?_, ?_, hentry i hi⟩⟩
    · exact (Extents.reads_iff (hextents.spreads_left.length_le hi)).mpr rfl
    · exact (Extents.reads_iff (hextents.spreads_right.length_le hi)).mpr rfl

theorem Joins.swap (h : Joins op a b y) : Joins (fun p q => op q p) b a y := by
  obtain ⟨⟨hrank, hleft, hright, heither⟩, hentry⟩ := h
  refine ⟨⟨by rw [hrank, Nat.max_comm], hright, hleft, fun k => (heither k).symm⟩, fun i hi => ?_⟩
  obtain ⟨j, l, hj, hl, hget⟩ := hentry i hi
  exact ⟨l, j, hl, hj, hget⟩

/-- Where operands are combined, the extents go together and the entries are combined. -/
theorem joins_of_broadcast (h : a.broadcast name op b = .ok y) : Joins op a b y := by
  unfold broadcast at h
  split at h
  · rename_i s hs
    cases h
    exact joins_iff.mpr ⟨Extents.broadcast?_eq_some_iff.mp hs,
      fun i hi => get_broadcastWith op a b hi⟩
  · cases h

end

section

variable {α : Type} [CommRing α] {a b y g d : DenseArray α} {op : α → α → α}
  {target : Extents}

/-- Summing a gradient back to an operand is the adjoint of repeating the operand. -/
theorem reduceTo_dot (hspreads : target.Spreads g.extents) (h : g.reduceTo target = .ok d)
    (x : DenseArray α) : d.extents = target ∧
      d.dot x = ∑ i ∈ g.extents.box, g.get i * x.get (target.project i) := by
  obtain ⟨hextents, hcollapses⟩ := collapses_reduceTo hspreads.rank h
  exact ⟨hextents, hcollapses.dot x⟩

/-- An operation that is linear in its left operand has `op'` for its derivative there. A gradient is
weighted by the right operand, as `op'` says, and summed back to the left one. -/
theorem Joins.pullsBack_left (h : Joins op a b y) (op' : α → α → α)
    (hop : ∀ p p' q t, op (p + t * p') q = op p q + t * op' p' q) (hg : g.extents = y.extents)
    (weighted : DenseArray α) (hextents : weighted.extents = y.extents)
    (hweighted : ∀ i, y.extents.Contains i → ∀ p,
      weighted.get i * p = g.get i * op' p (b.get (b.extents.project i)))
    (hd : weighted.reduceTo a.extents = .ok d) :
    PullsBack (fun a' y' => Joins op a' b y') a y g d := by
  obtain ⟨hbroadcasts, hentry⟩ := joins_iff.mp h
  have hspreads : a.extents.Spreads weighted.extents := hextents ▸ hbroadcasts.spreads_left
  refine ⟨(reduceTo_dot hspreads hd a).1, fun x hx => ?_⟩
  refine ⟨broadcastWith y.extents op' x b, rfl, fun t => joins_iff.mpr ⟨hbroadcasts, ?_⟩, ?_⟩
  · intro i (hi : y.extents.Contains i)
    have hproject := hbroadcasts.spreads_left.contains_project hi
    have hleft : (a.along x t).extents = a.extents := rfl
    have hmoved := get_along (x := y) (d := broadcastWith y.extents op' x b) rfl rfl t hi
    rw [hmoved, hleft, get_along rfl hx t hproject, hop, hentry i hi,
      get_broadcastWith op' x b hi, hx]
  · rw [(reduceTo_dot hspreads hd x).2, hextents, dot, hg]
    apply Finset.sum_congr rfl
    intro i hi
    rw [hweighted i (Extents.mem_box.mp hi), get_broadcastWith op' x b (Extents.mem_box.mp hi), hx]

/-- The same for the right operand. -/
theorem Joins.pullsBack_right (h : Joins op a b y) (op' : α → α → α)
    (hop : ∀ p q q' t, op p (q + t * q') = op p q + t * op' p q') (hg : g.extents = y.extents)
    (weighted : DenseArray α) (hextents : weighted.extents = y.extents)
    (hweighted : ∀ i, y.extents.Contains i → ∀ q,
      weighted.get i * q = g.get i * op' (a.get (a.extents.project i)) q)
    (hd : weighted.reduceTo b.extents = .ok d) :
    PullsBack (fun b' y' => Joins op a b' y') b y g d := by
  obtain ⟨hback, hdot⟩ := h.swap.pullsBack_left (fun q p => op' p q)
    (fun q q' p t => hop p q q' t) hg weighted hextents hweighted hd
  refine ⟨hback, fun x hx => ?_⟩
  obtain ⟨c, hc, hmoves, hdot⟩ := hdot x hx
  exact ⟨c, hc, fun t => (hmoves t).swap, hdot⟩

/-- Entries that are multiplied in place are where they broadcast to. -/
theorem get_times {i : List Nat} (own : Extents) (hi : g.extents.Contains i) :
    (g.times a own).get i = g.get i * a.get (a.extents.project i) := by
  unfold times
  split
  · rename_i hsame
    rw [get_zipWith _ rfl hsame.2.symm hi, Extents.project_self (hsame.2 ▸ hi)]
  · rw [get_broadcastWith _ g a hi, Extents.project_self hi]

end

end DenseArray

end NeuralNet
