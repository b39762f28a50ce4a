import Mathlib.Data.List.GetD
import NeuralNet.DenseArray.Channels
import NeuralNet.Proofs.DenseArray.Product

/-!
# Channels as columns

Exchanging an axis with the last one twice changes nothing. In between, an index stands in the column of
its entry on the axis, and in the row that the rest of it is counted as.

* `Extents.swapLast_swapLast`: the exchange undoes itself;
* `Extents.cell`: where an index stands in the matrix;
* `DenseArray.get_toRows`, `DenseArray.get_fromRows`: the matrix has its values there, and gives them
  back;
* `DenseArray.InRows`: what is computed in the rows, by the indices that it is computed for.
-/

namespace NeuralNet

namespace Extents

variable {s : Extents} {i l : List Nat} {axis k : Nat}

theorem length_swapLast (axis : Nat) (l : List Nat) : (swapLast axis l).length = l.length := by
  simp [swapLast]

theorem getD_swapLast (haxis : axis < l.length) (hk : k < l.length) :
    (swapLast axis l).getD k 0 = if k = l.length - 1 then l.getD axis 0
      else if k = axis then l.getD (l.length - 1) 0 else l.getD k 0 := by
  have hlast : l.getLastD 0 = l.getD (l.length - 1) 0 := by
    rw [List.getLastD_eq_getLast?, List.getLast?_eq_getElem?, List.getD_eq_getElem?_getD]
  rw [swapLast, hlast, List.getD_eq_getElem?_getD, List.getElem?_set, List.getElem?_set]
  have hlen : l.length - 1 < l.length := by omega
  by_cases hend : k = l.length - 1
  · simp [hend, hlen]
  · have hend' : ¬l.length - 1 = k := Ne.symm hend
    by_cases hax : k = axis
    · subst hax
      simp [hend, hend', hk]
    · have hax' : ¬axis = k := Ne.symm hax
      simp [hend, hend', hax, hax', List.getD_eq_getElem?_getD]

theorem getD_swapLast_self (haxis : axis < l.length) :
    (swapLast axis l).getD axis 0 = l.getD (l.length - 1) 0 := by
  rw [getD_swapLast haxis haxis]
  split
  · rename_i h
    rw [← h]
  · rw [if_pos rfl]

/-- The exchange undoes itself. -/
theorem swapLast_swapLast (haxis : axis < l.length) : swapLast axis (swapLast axis l) = l := by
  have hlen := length_swapLast axis l
  have hlen' := length_swapLast axis (swapLast axis l)
  refine List.ext_getElem (hlen'.trans hlen) fun k hk hk' => ?_
  have hlast : l.length - 1 < l.length := by omega
  rw [← List.getD_eq_getElem _ 0 hk, ← List.getD_eq_getElem _ 0 hk',
    getD_swapLast (hlen.symm ▸ haxis) (hlen.symm ▸ hk'), hlen, getD_swapLast haxis haxis,
    getD_swapLast haxis hlast, getD_swapLast haxis hk', if_pos rfl]
  grind

theorem contains_swapLast (haxis : axis < s.length) (h : s.Contains i) :
    Contains (swapLast axis s) (swapLast axis i) := by
  obtain ⟨hrank, hlt⟩ := contains_iff_getD.mp h
  refine contains_iff_getD.mpr ⟨by rw [length_swapLast, length_swapLast, hrank], fun k hk => ?_⟩
  rw [length_swapLast] at hk
  have hlast : s.length - 1 < s.length := by omega
  rw [getD_swapLast haxis hk, getD_swapLast (hrank.symm ▸ haxis) (hrank.symm ▸ hk), hrank]
  split
  · exact hlt axis haxis
  · split
    · exact hlt _ hlast
    · exact hlt k hk

/-- The exchanged list ends with the entry on the axis. -/
theorem swapLast_eq_concat (haxis : axis < l.length) :
    swapLast axis l = (swapLast axis l).dropLast ++ [l.getD axis 0] := by
  have hlen := length_swapLast axis l
  have hne : swapLast axis l ≠ [] := List.ne_nil_of_length_pos (by omega)
  have hlast : (swapLast axis l).getLast hne = l.getD axis 0 := by
    rw [List.getLast_eq_getElem, ← List.getD_eq_getElem _ 0, hlen,
      getD_swapLast haxis (by omega), if_pos rfl]
  rw [← hlast, List.dropLast_append_getLast]

theorem getD_lt_of_contains (haxis : axis < s.length) (h : s.Contains i) :
    i.getD axis 0 < s.getD axis 0 := (contains_iff_getD.mp h).2 axis haxis

/-- The row and the column of an index. -/
def cell (s : Extents) (axis : Nat) (i : List Nat) : List Nat :=
  [ravel (swapLast axis s).dropLast (swapLast axis i).dropLast, i.getD axis 0]

end Extents

namespace DenseArray

variable {α β γ : Type} [Zero α] {a rows : DenseArray α} {s t : Extents} {i : List Nat}
  {axis : Nat}

/-- The extents of a matrix that has the channels of an array for columns. -/
def columnExtents (s : Extents) (axis : Nat) : Extents :=
  [matrixRows (Extents.swapLast axis s) (s.getD axis 0), s.getD axis 0]

theorem extents_toRows (haxis : axis < a.extents.length) :
    (a.toRows axis).extents = columnExtents a.extents axis := by
  have hlast : (a.swapAxes axis).extents.getLastD 0 = a.extents.getD axis 0 := by
    have hconcat : (a.swapAxes axis).extents = _ := Extents.swapLast_eq_concat haxis
    rw [hconcat, List.getLastD_concat]
  change [matrixRows (a.swapAxes axis).extents ((a.swapAxes axis).extents.getLastD 0),
    (a.swapAxes axis).extents.getLastD 0] = _
  rw [hlast]
  rfl

theorem extents_fromRows (rows : DenseArray α) (haxis : axis < s.length) :
    (rows.fromRows s axis).extents = s := Extents.swapLast_swapLast haxis

/-- An index of an array, taken apart where its axis has been exchanged with the last one. -/
theorem exists_cell (haxis : axis < s.length) (hi : s.Contains i) :
    ∃ lead l : List Nat, Extents.swapLast axis s = lead ++ [s.getD axis 0] ∧
      Extents.swapLast axis i = l ++ [i.getD axis 0] ∧ Extents.Contains lead l ∧
      s.cell axis i = [Extents.ravel lead l, i.getD axis 0] ∧
      columnExtents s axis = [Extents.size lead, s.getD axis 0] := by
  have hs := Extents.swapLast_eq_concat haxis
  have hi' := Extents.swapLast_eq_concat (l := i) (Extents.length_of_contains hi ▸ haxis)
  have hcontains := Extents.contains_swapLast haxis hi
  rw [hs, hi'] at hcontains
  obtain ⟨hl, hlt⟩ := Extents.contains_concat.mp hcontains
  refine ⟨_, _, hs, hi', hl, rfl, ?_⟩
  rw [columnExtents, hs, matrixRows_of_ne_zero _ (Nat.ne_zero_of_lt hlt), List.dropLast_concat]

theorem contains_cell (haxis : axis < s.length) (hi : s.Contains i) :
    Extents.Contains (columnExtents s axis) (s.cell axis i) := by
  obtain ⟨lead, l, -, -, hl, hcell, hrows⟩ := exists_cell haxis hi
  rw [hcell, hrows]
  exact ⟨Extents.ravel_lt_size hl, Extents.getD_lt_of_contains haxis hi, trivial⟩

theorem ravel_cell (lead l : List Nat) (c k m : Nat) :
    Extents.ravel [m, k] [Extents.ravel lead l, c] = Extents.ravel lead l * k + c := by
  simp [Extents.ravel, Extents.size]

/-- Every value stands in the row and the column of its index. -/
theorem get_toRows (haxis : axis < a.extents.length) (hi : a.extents.Contains i) :
    (a.toRows axis).get (a.extents.cell axis i) = a.get i := by
  obtain ⟨lead, l, hs, hswapped, hl, hcell, -⟩ := exists_cell haxis hi
  have hmoved : (a.swapAxes axis).extents = lead ++ [a.extents.getD axis 0] := hs
  have hcontains := contains_cell haxis hi
  rw [← extents_toRows haxis] at hcontains
  have hentry : (a.toRows axis).get (a.extents.cell axis i) =
      (a.swapAxes axis).entry (Extents.ravel _ _) := get_relaid hcontains
  rw [hentry, hmoved, List.getLastD_concat, hcell, ravel_cell,
    ← get_concat hmoved hl, ← hswapped, swapAxes, get_gather (Extents.contains_swapLast haxis hi),
    Extents.swapLast_swapLast (Extents.length_of_contains hi ▸ haxis)]

/-- The rows give the values back to the indices that they are of. -/
theorem get_fromRows (haxis : axis < s.length) (hrows : rows.extents = columnExtents s axis)
    (hi : s.Contains i) : (rows.fromRows s axis).get i = rows.get (s.cell axis i) := by
  obtain ⟨lead, l, hs, hswapped, hl, hcell, -⟩ := exists_cell haxis hi
  have hi' : Extents.Contains (Extents.swapLast axis (Extents.swapLast axis s)) i :=
    (Extents.swapLast_swapLast haxis).symm ▸ hi
  rw [fromRows, swapAxes, relaid, extents_generate, get_gather hi',
    get_generate (Extents.contains_swapLast haxis hi), hcell, get_pair hrows, hs, hswapped,
    Extents.ravel_concat (Extents.length_of_contains hl)]

/-! ## The checks -/

/-- The matrix has as many entries as the array, so that it can always be made. -/
theorem regroup_toRows (haxis : axis < a.extents.length) :
    (a.swapAxes axis).regroup (columnExtents a.extents axis) = .ok (a.toRows axis) := by
  have hmoved : (a.swapAxes axis).extents = _ := Extents.swapLast_eq_concat haxis
  have hsize : (a.swapAxes axis).extents.size = Extents.size (columnExtents a.extents axis) := by
    rw [← matrixRows_mul hmoved, columnExtents, Extents.size, Extents.size, Extents.size,
      Nat.mul_one]
    rfl
  rw [regroup_relaid hsize, ← extents_toRows haxis]
  rfl

/-- And the array can be made of it again. -/
theorem regroup_fromRows (haxis : axis < s.length) (hrows : rows.extents = columnExtents s axis) :
    (rows.regroup (Extents.swapLast axis s)).map (swapAxes · axis) = .ok (rows.fromRows s axis) := by
  have hsize : rows.extents.size = Extents.size (Extents.swapLast axis s) := by
    rw [hrows, ← matrixRows_mul (Extents.swapLast_eq_concat haxis), columnExtents, Extents.size,
      Extents.size, Extents.size, Nat.mul_one]
  rw [regroup_relaid hsize]
  rfl

/-! ## Values in rows -/

/-- The matrix has at the cell of every index what `x` has there. -/
structure InRows (rows : DenseArray α) (s : Extents) (axis : Nat) (x : List Nat → α) : Prop where
  extents : rows.extents = columnExtents s axis
  get : ∀ i, s.Contains i → rows.get (s.cell axis i) = x i

theorem inRows_toRows (ha : a.extents = s) (haxis : axis < s.length) :
    InRows (a.toRows axis) s axis a.get := by
  subst ha
  exact ⟨extents_toRows haxis, fun i hi => get_toRows haxis hi⟩

namespace InRows

variable [Zero β] [Zero γ] {x : List Nat → α} {y : List Nat → β} {columns : DenseArray β}
  (h : InRows rows s axis x)

include h

theorem congr {y : List Nat → α} (hxy : ∀ i, s.Contains i → x i = y i) : InRows rows s axis y :=
  ⟨h.extents, fun i hi => (h.get i hi).trans (hxy i hi)⟩

theorem get_fromRows (haxis : axis < s.length) (hi : s.Contains i) :
    (rows.fromRows s axis).get i = x i := by
  rw [DenseArray.get_fromRows haxis h.extents hi, h.get i hi]

variable (haxis : axis < s.length)

include haxis

theorem map (f : α → β) : InRows (rows.map f) s axis fun i => f (x i) := by
  refine ⟨h.extents, fun i hi => ?_⟩
  rw [get_map f (h.extents ▸ contains_cell haxis hi), h.get i hi]

theorem zipWith (f : α → β → γ) (h' : InRows columns s axis y) :
    InRows (rows.zipWith f columns) s axis fun i => f (x i) (y i) := by
  refine ⟨h.extents, fun i hi => ?_⟩
  rw [get_zipWith f h.extents h'.extents (contains_cell haxis hi), h.get i hi, h'.get i hi]

/-- A value is combined with the one of its column. -/
theorem withRow (f : α → β → γ) {v : DenseArray β} (hv : v.extents = [s.getD axis 0]) :
    InRows (rows.withRow f v) s axis fun i => f (x i) (v.get [i.getD axis 0]) := by
  refine ⟨h.extents, fun i hi => ?_⟩
  have hcontains : rows.extents.Contains (s.cell axis i) := h.extents ▸ contains_cell haxis hi
  have hcolumn : v.extents.project (s.cell axis i) = [i.getD axis 0] := by
    rw [hv]
    exact Extents.project_last [_] (Extents.getD_lt_of_contains haxis hi)
  rw [DenseArray.withRow, get_broadcastWith f rows v hcontains, Extents.project_self hcontains,
    hcolumn, h.get i hi]

end InRows

end DenseArray

end NeuralNet
