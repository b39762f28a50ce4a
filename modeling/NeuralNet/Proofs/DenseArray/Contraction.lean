import NeuralNet.Proofs.DenseArray.Sums

/-!
# Contraction

An array is contracted with the rows of a matrix over its last axis, whatever axes it has in front of
that one. Without a term every sum is 0; a result that has entries then is not made, though.

* `DenseArray.matmul_contracts`, `DenseArray.matmul_mismatch`: what `matmul` ends with, for all
  operands;
* `Contracts.pullsBack_left`, `Contracts.pullsBack_right`: what goes back is the adjoint.
-/

namespace NeuralNet

open Finset (range)

theorem Extents.sum_box_concat {M : Type} [AddCommMonoid M] (s : Extents) (n : Nat)
    (f : List Nat → M) :
    ∑ i ∈ box (s ++ [n]), f i = ∑ l ∈ s.box, ∑ j ∈ range n, f (l ++ [j]) := by
  induction s generalizing f with
  | nil =>
    rw [List.nil_append, sum_box_cons, sum_box_nil]
    exact Finset.sum_congr rfl fun j _ => sum_box_nil _
  | cons m s ih =>
    rw [List.cons_append, sum_box_cons, sum_box_cons]
    exact Finset.sum_congr rfl fun j _ => ih _

namespace DenseArray

/-- Every row of `a`, whatever the axes in front of it, against every row of `b`. -/
structure Contracts {α : Type} [CommRing α] (lead : Extents) (n k : Nat) (a b y : DenseArray α) :
    Prop where
  left : a.extents = lead ++ [k]
  right : b.extents = [n, k]
  extents : y.extents = lead ++ [n]
  entry : ∀ l j, lead.Contains l → j < n →
    y.get (l ++ [j]) = ∑ t ∈ range k, a.get (l ++ [t]) * b.get [j, t]

section

variable {α : Type} [ExactScalar α] {a b d y g x z : DenseArray α} {lead : Extents} {n k j t : Nat}
  {l : List Nat}

theorem contracts_contract (ha : a.extents = lead ++ [k]) (hb : b.extents = [n, k]) :
    Contracts lead n k a b (a.contract b n k) := by
  refine ⟨ha, hb, ?_, fun l j hl hj => ?_⟩
  · rw [contract, extents_generate, ha, List.dropLast_concat]
  · rw [get_contract ha hl hj, ExactScalar.sumUpTo_eq_sum_range]

/-- Of arrays whose extents go together the contraction is made, unless its extents have no array or
there are entries without a term. -/
theorem matmul_contracts (ha : a.extents = lead ++ [k]) (hb : b.extents = [n, k]) :
    if (lead ++ [n]).addressable ∧ (k = 0 → Extents.size (lead ++ [n]) = 0) then
      ∃ y, a.matmul b = .ok y ∧ Contracts lead n k a b y
    else a.matmul b = .error (.array .incompatibleExtents) := by
  have hchecks : contractsTo (lead ++ [n]) k = true ↔
      (lead ++ [n]).addressable ∧ (k = 0 → Extents.size (lead ++ [n]) = 0) := by
    rw [contractsTo_iff, or_iff_not_imp_left, not_not]
  rw [matmul_eq ha hb]
  by_cases h : contractsTo (lead ++ [n]) k = true
  · rw [if_pos (hchecks.mp h), if_pos h]
    exact ⟨_, rfl, contracts_contract ha hb⟩
  · rw [if_neg (mt hchecks.mpr h), if_neg h]

/-- Extents that do not go together are reported as such. -/
theorem matmul_mismatch (h : ¬∃ lead n k, a.extents = lead ++ [k] ∧ b.extents = [n, k]) :
    ∃ operand expected found,
      a.matmul b = .error (.shapeMismatch operand expected found) := by
  unfold matmul
  split
  · rename_i n k hb
    cases hlast : a.extents.getLast? with
    | none => exact ⟨_, _, _, rfl⟩
    | some last =>
      dsimp only
      obtain ⟨lead, hlead⟩ := List.getLast?_eq_some_iff.mp hlast
      have hne : last ≠ k := by
        rintro rfl
        exact h ⟨lead, n, last, hlead, hb⟩
      rw [if_pos hne]
      exact ⟨_, _, _, rfl⟩
  · exact ⟨_, _, _, rfl⟩

/-- What `matmul` gives is the contraction. -/
theorem contracts_of_matmul (h : a.matmul b = .ok y) : ∃ lead n k, Contracts lead n k a b y := by
  by_cases hshapes : ∃ lead n k, a.extents = lead ++ [k] ∧ b.extents = [n, k]
  · obtain ⟨lead, n, k, ha, hb⟩ := hshapes
    have hends := matmul_contracts ha hb
    split at hends
    · obtain ⟨y', hy', hcontracts⟩ := hends
      cases hy'.symm.trans h
      exact ⟨lead, n, k, hcontracts⟩
    · cases hends.symm.trans h
  · obtain ⟨_, _, _, herror⟩ := matmul_mismatch hshapes
    cases herror.symm.trans h

/-! ## The way back -/

/-- The rows of a gradient, at the indices that they were counted from. -/
theorem get_rows {rows : DenseArray α} {m : Nat} (hg : g.extents = lead ++ [n])
    (h : g.regroup [m, n] = .ok rows) (hl : lead.Contains l) :
    rows.get [lead.ravel l, j] = g.get (l ++ [j]) := by
  obtain ⟨-, hextents, hentry⟩ := regroup_ok h
  rw [get_pair hextents, hentry, get_concat hg hl]

theorem contractLeft_ok (ha : a.extents = lead ++ [k]) (hb : b.extents = [n, k])
    (hg : g.extents = lead ++ [n]) (h : g.contractLeft a b = .ok d) :
    d.extents = lead ++ [k] ∧ ∀ l t, lead.Contains l → t < k →
      d.get (l ++ [t]) = ∑ j ∈ range n, g.get (l ++ [j]) * b.get [j, t] := by
  simp only [contractLeft, hb, List.headD_cons, List.getLastD_cons, List.getLastD_nil] at h
  obtain ⟨rows, hrows, h⟩ := bind_eq_ok_iff.mp h
  have hextents := (regroup_ok h).2.1
  rw [ha] at h hrows
  refine ⟨hextents.trans ha, fun l t hl ht => ?_⟩
  have hrow : lead.ravel l < matrixRows (lead ++ [k]) k := by
    rw [matrixRows_of_ne_zero lead (Nat.ne_zero_of_lt ht)]
    exact Extents.ravel_lt_size hl
  rw [get_regroup_rows rfl h hl, get_product hrow ht, ExactScalar.sumUpTo_eq_sum_range]
  exact Finset.sum_congr rfl fun j _ => by rw [get_rows hg hrows hl]

theorem contractRight_ok (ha : a.extents = lead ++ [k]) (hb : b.extents = [n, k])
    (hg : g.extents = lead ++ [n]) (h : g.contractRight a b = .ok d) :
    d.extents = [n, k] ∧ ∀ j t, j < n → t < k →
      d.get [j, t] = ∑ l ∈ lead.box, g.get (l ++ [j]) * a.get (l ++ [t]) := by
  simp only [contractRight, hb, List.headD_cons, List.getLastD_cons, List.getLastD_nil] at h
  obtain ⟨rows, hrows, h⟩ := bind_eq_ok_iff.mp h
  obtain ⟨left, hleft, h⟩ := bind_eq_ok_iff.mp h
  cases h
  rw [ha] at hrows hleft
  refine ⟨rfl, fun j t hj ht => ?_⟩
  rw [get_product hj ht, ha, matrixRows_of_ne_zero lead (Nat.ne_zero_of_lt ht),
    ExactScalar.sumUpTo_eq_sum_range, ← Extents.sum_unravel]
  apply Finset.sum_congr rfl
  intro r hr
  have hr := Finset.mem_range.mp hr
  have hl := Extents.contains_unravel hr
  rw [← get_rows hg hrows hl, ← get_rows ha hleft hl, Extents.ravel_unravel hr]

theorem dot_concat (hg : g.extents = lead ++ [n]) (x : DenseArray α) :
    g.dot x = ∑ l ∈ lead.box, ∑ j ∈ range n, g.get (l ++ [j]) * x.get (l ++ [j]) := by
  rw [dot, hg, Extents.sum_box_concat]

/-- Contractions are added up if their terms are. -/
theorem Contracts.along {a' b' c d : DenseArray α} (h : Contracts lead n k a b y)
    (hx : Contracts lead n k a' b' z) (q : α) (hc : c.extents = lead ++ [k]) (hd : d.extents = [n, k])
    (hterm : ∀ l j t, lead.Contains l → j < n → t < k → c.get (l ++ [t]) * d.get [j, t] =
      a.get (l ++ [t]) * b.get [j, t] + q * (a'.get (l ++ [t]) * b'.get [j, t])) :
    Contracts lead n k c d (y.along z q) := by
  refine ⟨hc, hd, h.extents, fun l j hl hj => ?_⟩
  have hi : (lead ++ [n]).Contains (l ++ [j]) := Extents.contains_concat.mpr ⟨hl, hj⟩
  rw [get_along h.extents hx.extents q hi, h.entry l j hl hj, hx.entry l j hl hj, Finset.mul_sum,
    ← Finset.sum_add_distrib]
  apply Finset.sum_congr rfl
  intro t ht
  exact (hterm l j t hl hj (Finset.mem_range.mp ht)).symm

/-- The contraction is linear in either operand. -/
theorem Contracts.along_left (h : Contracts lead n k a b y) (hx : Contracts lead n k x b z) (q : α) :
    Contracts lead n k (a.along x q) b (y.along z q) := by
  apply h.along hx q ((extents_along a x q).trans h.left) h.right
  intro l j t hl _ ht
  rw [get_along h.left hx.left q (Extents.contains_concat.mpr ⟨hl, ht⟩)]
  ring

theorem Contracts.along_right (h : Contracts lead n k a b y) (hx : Contracts lead n k a x z)
    (q : α) : Contracts lead n k a (b.along x q) (y.along z q) := by
  apply h.along hx q h.left ((extents_along b x q).trans h.right)
  intro l j t _ hj ht
  have hi : Extents.Contains [n, k] [j, t] := ⟨hj, ht, trivial⟩
  rw [get_along h.right hx.right q hi]
  ring

/-- Sums over the terms that are grouped by an entry of the operand, and by an entry of the result. -/
theorem contractLeft_dot (h : Contracts lead n k x b z) (ha : a.extents = lead ++ [k])
    (hg : g.extents = lead ++ [n]) (hd : g.contractLeft a b = .ok d) : d.dot x = g.dot z := by
  obtain ⟨hextents, hget⟩ := contractLeft_ok ha h.right hg hd
  rw [dot_concat hextents, dot_concat hg]
  apply Finset.sum_congr rfl
  intro l hl
  have hl := Extents.mem_box.mp hl
  calc ∑ t ∈ range k, d.get (l ++ [t]) * x.get (l ++ [t])
      = ∑ t ∈ range k, ∑ j ∈ range n, g.get (l ++ [j]) * b.get [j, t] * x.get (l ++ [t]) := by
        apply Finset.sum_congr rfl
        intro t ht
        rw [hget l t hl (Finset.mem_range.mp ht), Finset.sum_mul]
    _ = ∑ j ∈ range n, ∑ t ∈ range k, g.get (l ++ [j]) * b.get [j, t] * x.get (l ++ [t]) :=
        Finset.sum_comm
    _ = ∑ j ∈ range n, g.get (l ++ [j]) * z.get (l ++ [j]) := by
        apply Finset.sum_congr rfl
        intro j hj
        rw [h.entry l j hl (Finset.mem_range.mp hj), Finset.mul_sum]
        apply Finset.sum_congr rfl
        intro t _
        ring

theorem contractRight_dot (h : Contracts lead n k a x z) (hb : b.extents = [n, k])
    (hg : g.extents = lead ++ [n]) (hd : g.contractRight a b = .ok d) : d.dot x = g.dot z := by
  obtain ⟨hextents, hget⟩ := contractRight_ok h.left hb hg hd
  rw [dot, hextents, Extents.sum_box_cons, dot_concat hg]
  calc ∑ j ∈ range n, ∑ i ∈ Extents.box [k], d.get (j :: i) * x.get (j :: i)
      = ∑ j ∈ range n, ∑ t ∈ range k, ∑ l ∈ lead.box,
          g.get (l ++ [j]) * (a.get (l ++ [t]) * x.get [j, t]) := by
        apply Finset.sum_congr rfl
        intro j hj
        rw [Extents.sum_box_cons]
        apply Finset.sum_congr rfl
        intro t ht
        rw [Extents.sum_box_nil, hget j t (Finset.mem_range.mp hj) (Finset.mem_range.mp ht),
          Finset.sum_mul]
        simp only [mul_assoc]
    _ = ∑ j ∈ range n, ∑ l ∈ lead.box, g.get (l ++ [j]) * z.get (l ++ [j]) := by
        apply Finset.sum_congr rfl
        intro j hj
        rw [Finset.sum_comm]
        apply Finset.sum_congr rfl
        intro l hl
        rw [h.entry l j (Extents.mem_box.mp hl) (Finset.mem_range.mp hj), Finset.mul_sum]
    _ = ∑ l ∈ lead.box, ∑ j ∈ range n, g.get (l ++ [j]) * z.get (l ++ [j]) := Finset.sum_comm

theorem Contracts.pullsBack_left (h : Contracts lead n k a b y) (hg : g.extents = y.extents)
    (hd : g.contractLeft a b = .ok d) :
    PullsBack (fun a' y' => Contracts lead n k a' b y') a y g d := by
  have hg := hg.trans h.extents
  refine ⟨(contractLeft_ok h.left h.right hg hd).1.trans h.left.symm, fun x hx => ?_⟩
  have hmoved := contracts_contract (hx.trans h.left) h.right
  exact ⟨_, hmoved.extents.trans h.extents.symm, h.along_left hmoved,
    contractLeft_dot hmoved h.left hg hd⟩

theorem Contracts.pullsBack_right (h : Contracts lead n k a b y) (hg : g.extents = y.extents)
    (hd : g.contractRight a b = .ok d) :
    PullsBack (fun b' y' => Contracts lead n k a b' y') b y g d := by
  have hg := hg.trans h.extents
  refine ⟨(contractRight_ok h.left h.right hg hd).1.trans h.right.symm, fun x hx => ?_⟩
  have hmoved := contracts_contract h.left (hx.trans h.right)
  exact ⟨_, hmoved.extents.trans h.extents.symm, h.along_right hmoved,
    contractRight_dot hmoved h.right hg hd⟩

end

end DenseArray

end NeuralNet
