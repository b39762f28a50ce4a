import NeuralNet.DenseArray.Contract
import NeuralNet.Proofs.Checks
import NeuralNet.Proofs.DenseArray.Positions

/-!
# Products over the last axis

A product goes through two matrices and back to the axes that an operand has. Entry by entry that is
one sum over the last axis; it is only where there is no term to sum that the way through the
matrices makes a difference: no rows are counted then, and entries that would be empty sums are
refused.

* `DenseArray.contract`, `DenseArray.contractsTo`: the entries, and when there are any to be made;
* `DenseArray.matmul_eq`: that is what `matmul` ends with.
-/

namespace NeuralNet

namespace DenseArray

open Scalar (sumUpTo)

variable {α : Type}

section Regroup

variable {a y : DenseArray α} {s : Extents}

theorem regroup_error (h : a.extents.size ≠ s.size) :
    a.regroup s = .error (.array .incompatibleExtents) := by
  rw [regroup, dif_neg h]

/-- Other extents of the same size leave every value at its position. -/
theorem exists_regroup [Zero α] (h : a.extents.size = s.size) :
    ∃ y, a.regroup s = .ok y ∧ y.extents = s ∧ ∀ p, y.entry p = a.entry p := by
  rw [regroup, dif_pos h]
  exact ⟨_, rfl, rfl, fun _ => rfl⟩

theorem regroup_ok [Zero α] (h : a.regroup s = .ok y) :
    a.extents.size = s.size ∧ y.extents = s ∧ ∀ p, y.entry p = a.entry p := by
  by_cases hsize : a.extents.size = s.size
  · obtain ⟨y', hy', hextents, hentry⟩ := exists_regroup hsize
    cases h.symm.trans hy'
    exact ⟨hsize, hextents, hentry⟩
  · cases h.symm.trans (regroup_error hsize)

/-- The values can be laid out anew where there are as many. -/
theorem regroup_relaid [Zero α] (h : a.extents.size = s.size) : a.regroup s = .ok (a.relaid s) := by
  obtain ⟨y, hy, hextents, hentry⟩ := exists_regroup h
  rw [hy]
  refine congrArg _ (ext_get hextents fun i hi => ?_)
  have hi : s.Contains i := hextents ▸ hi
  rw [get_relaid hi, get, hextents, hentry]

end Regroup

variable [Zero α] [Add α] [Mul α] {a b y : DenseArray α} {s lead : Extents} {l : List Nat}
  {m n k j t r c : Nat} {f g : Nat → Nat → α}

theorem get_product (hr : r < m) (hc : c < n) :
    (product m k n f g).get [r, c] = sumUpTo k fun t => f r t * g t c :=
  get_generate (s := [m, n]) (i := [r, c]) ⟨hr, hc, trivial⟩ _

/-- The last axis of `a` against the rows of `b`: the entry at `l ++ [j]` is the sum over the last axis
of `a` at `l` times row `j` of `b`. -/
def contract (a b : DenseArray α) (n k : Nat) : DenseArray α :=
  generate (a.extents.dropLast ++ [n]) fun i =>
    sumUpTo k fun t => a.get (i.dropLast ++ [t]) * b.get [i.getLastD 0, t]

/-- Whether a contraction over `k` terms may have a result of these extents. Without a term nothing
is summed, and then the result may have no element either. -/
def contractsTo (s : Extents) (k : Nat) : Bool := s.addressable && (k ≠ 0 || s.size = 0)

theorem get_contract (ha : a.extents = s ++ [k]) (hl : s.Contains l) (hj : j < n) :
    (contract a b n k).get (l ++ [j]) = sumUpTo k fun t => a.get (l ++ [t]) * b.get [j, t] := by
  have hdrop : a.extents.dropLast = s := by rw [ha, List.dropLast_concat]
  rw [contract, get_generate (by rw [hdrop]; exact Extents.contains_concat.mpr ⟨hl, hj⟩),
    List.dropLast_concat, List.getLastD_concat]

/-! ## Rows of a matrix -/

theorem matrixRows_mul (hs : s = lead ++ [k]) : matrixRows s k * k = s.size := by
  rw [hs, Extents.size_append_one, matrixRows]
  split
  · rename_i hk
    rw [hk, Nat.mul_zero, Nat.mul_zero]
  · rename_i hk
    rw [Extents.size_append_one, Nat.mul_div_cancel _ (Nat.pos_of_ne_zero hk)]

theorem matrixRows_of_ne_zero (lead : Extents) (hk : k ≠ 0) :
    matrixRows (lead ++ [k]) k = lead.size := by
  rw [matrixRows, if_neg hk, Extents.size_append_one, Nat.mul_div_cancel _ (Nat.pos_of_ne_zero hk)]

omit [Add α] [Mul α] in
/-- The row that an index of the other axes stands for. -/
theorem exists_rows (ha : a.extents = lead ++ [k]) : ∃ x,
    a.regroup [matrixRows a.extents k, k] = .ok x ∧
      ∀ l t, lead.Contains l → t < k → x.get [lead.ravel l, t] = a.get (l ++ [t]) := by
  have hsize : a.extents.size = Extents.size [matrixRows a.extents k, k] := by
    rw [← matrixRows_mul ha, Extents.size, Extents.size, Extents.size, Nat.mul_one]
  obtain ⟨x, hx, hextents, hentry⟩ := exists_regroup hsize
  refine ⟨x, hx, fun l t hl _ => ?_⟩
  rw [get_pair hextents, hentry, get_concat ha hl]

omit [Add α] [Mul α] in
/-- Entries of a matrix, put back to the axes that its rows were counted from. -/
theorem get_regroup_rows {x : DenseArray α} (hx : x.extents = [m, n])
    (h : x.regroup (lead ++ [n]) = .ok y) (hl : lead.Contains l) :
    y.get (l ++ [j]) = x.get [lead.ravel l, j] := by
  obtain ⟨-, hextents, hentry⟩ := regroup_ok h
  rw [get_concat hextents hl, hentry, get_pair hx]

omit [Zero α] [Add α] [Mul α] in
theorem contractsTo_iff :
    contractsTo s k = true ↔ s.addressable = true ∧ (k ≠ 0 ∨ s.size = 0) := by
  simp [contractsTo]

/-- The rows that are counted have as many entries as the result, or there is no term to sum. -/
theorem matrixRows_size_iff (lead : Extents) (n k : Nat) :
    Extents.size [matrixRows (lead ++ [k]) k, n] = Extents.size (lead ++ [n]) ↔
      k ≠ 0 ∨ Extents.size (lead ++ [n]) = 0 := by
  rw [Extents.size, Extents.size, Extents.size, Nat.mul_one]
  by_cases hk : k = 0
  · subst hk
    rw [matrixRows, if_pos rfl, Nat.zero_mul, eq_comm]
    simp
  · rw [matrixRows_of_ne_zero lead hk, Extents.size_append_one]
    simp [hk]

/-- Where extents go together, what `matmul` ends with is decided by the extents of the result. -/
theorem matmul_eq (ha : a.extents = lead ++ [k]) (hb : b.extents = [n, k]) :
    a.matmul b = if contractsTo (lead ++ [n]) k then .ok (contract a b n k)
      else .error (.array .incompatibleExtents) := by
  have hlast : a.extents.getLast? = some k := by rw [ha, List.getLast?_concat]
  have hdrop : a.extents.dropLast = lead := by rw [ha, List.dropLast_concat]
  obtain ⟨left, hleft, hget⟩ := exists_rows ha
  unfold matmul
  rw [hb]
  dsimp only
  rw [hlast]
  dsimp only
  rw [if_neg (not_not.mpr rfl), hdrop, hleft, ok_bind, ha]
  let p := product (matrixRows (lead ++ [k]) k) k n (fun r t => left.get [r, t])
    fun t c => b.get [c, t]
  change (if (lead ++ [n]).addressable = true then p.regroup (lead ++ [n])
    else .error (.array .incompatibleExtents)) = _
  by_cases haddressable : (lead ++ [n]).addressable = true
  · rw [if_pos haddressable]
    by_cases hterms : k ≠ 0 ∨ Extents.size (lead ++ [n]) = 0
    · rw [if_pos (contractsTo_iff.mpr ⟨haddressable, hterms⟩)]
      obtain ⟨y, hy, hextents, -⟩ :=
        exists_regroup (a := p) ((matrixRows_size_iff lead n k).mpr hterms)
      have hresult : (contract a b n k).extents = lead ++ [n] := by
        rw [contract, extents_generate, hdrop]
      rw [hy]
      refine congrArg _ (ext_get (hextents.trans hresult.symm) fun i hi => ?_)
      obtain ⟨l, j, rfl, hl, hj⟩ := Extents.exists_of_contains_concat (hextents ▸ hi)
      have hpos : 0 < Extents.size (lead ++ [n]) :=
        Nat.zero_lt_of_lt (Extents.ravel_lt_size (hextents ▸ hi))
      have hk : k ≠ 0 := hterms.resolve_right (Nat.ne_of_gt hpos)
      have hrow : lead.ravel l < matrixRows (lead ++ [k]) k := by
        rw [matrixRows_of_ne_zero lead hk]
        exact Extents.ravel_lt_size hl
      rw [get_regroup_rows rfl hy hl, get_product hrow hj, get_contract ha hl hj]
      exact sumUpTo_congr fun t ht => by rw [hget l t hl ht]
    · rw [if_neg fun h => hterms (contractsTo_iff.mp h).2]
      exact regroup_error (mt (matrixRows_size_iff lead n k).mp hterms)
  · rw [if_neg haddressable, if_neg fun h => haddressable (contractsTo_iff.mp h).1]

theorem matmul_ok (hb : b.extents = [n, k]) (ha : a.extents.getLast? = some k)
    (h : contractsTo (a.extents.dropLast ++ [n]) k = true) : a.matmul b = .ok (contract a b n k) := by
  obtain ⟨lead, hlead⟩ := List.getLast?_eq_some_iff.mp ha
  have hdrop : a.extents.dropLast = lead := by rw [hlead, List.dropLast_concat]
  rw [matmul_eq hlead hb, ← hdrop, if_pos h]

theorem matmul_error (hb : b.extents = [n, k])
    (h : ¬(a.extents.getLast? = some k ∧ contractsTo (a.extents.dropLast ++ [n]) k = true)) :
    ∃ e, a.matmul b = .error e := by
  by_cases hlast : a.extents.getLast? = some k
  · obtain ⟨lead, hlead⟩ := List.getLast?_eq_some_iff.mp hlast
    have hdrop : a.extents.dropLast = lead := by rw [hlead, List.dropLast_concat]
    rw [matmul_eq hlead hb, ← hdrop, if_neg fun hmakes => h ⟨hlast, hmakes⟩]
    exact ⟨_, rfl⟩
  · unfold matmul
    rw [hb]
    dsimp only
    split
    · exact ⟨_, rfl⟩
    · rename_i last hfound
      have hne : last ≠ k := by
        rintro rfl
        exact hlast hfound
      rw [if_pos hne]
      exact ⟨_, rfl⟩

end DenseArray

end NeuralNet
