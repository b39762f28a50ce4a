import NeuralNet.Proofs.DenseArray.Index
import NeuralNet.Proofs.DenseArray.Judgement
import NeuralNet.Proofs.Extents

/-!
# Two ways to label a row

A class for every row can be given as its number, or as a row of weights that are all 0 but the one of
the class. Either is turned into the same targets. Rows of weights are known by their extents, though,
and only by those of a matrix.

* `DenseArray.denseTargets_of_classNumbers`: numbers, whatever their extents;
* `DenseArray.denseTargets_oneHots`: rows of weights that are a matrix;
* `DenseArray.denseTargets_oneHots_error`: rows of weights with other axes in front of them.
-/

namespace NeuralNet

namespace DenseArray

variable {α : Type} [Scalar α] {lead : Extents} {batch classes : Nat} {c : Nat → Nat}
  {label x : DenseArray α}

/-- For every row, which may have any axes in front, all weight for the class `c` of the row. -/
def oneHots (lead : Extents) (classes : Nat) (c : Nat → Nat) : DenseArray α :=
  generate (lead ++ [classes]) fun i =>
    if c (lead.ravel i.dropLast) = i.getLastD 0 then 1 else 0

theorem size_oneHots (lead : Extents) (classes : Nat) (c : Nat → Nat) :
    (oneHots lead classes c : DenseArray α).size = lead.size * classes := by
  have hsize : (oneHots lead classes c : DenseArray α).size = Extents.size (lead ++ [classes]) :=
    (oneHots lead classes c).size_eq
  rw [hsize, Extents.size_append_one]

theorem get_oneHots {l : List Nat} {j : Nat} (hl : lead.Contains l) (hj : j < classes) :
    (oneHots lead classes c : DenseArray α).get (l ++ [j]) =
      if c (lead.ravel l) = j then 1 else 0 := by
  rw [oneHots, get_generate (Extents.contains_concat.mpr ⟨hl, hj⟩), List.dropLast_concat,
    List.getLastD_concat]

theorem classOf_ok {a : α} {n : Nat} (h : Scalar.toNat? a = some n) (hn : n < classes) :
    classOf classes a = .ok n := by
  unfold classOf
  rw [h]
  dsimp only
  rw [if_pos hn]

/-- A label that gives every row the number of its class. -/
structure Numbers (label : DenseArray α) (batch : Nat) (c : Nat → Nat) : Prop where
  size : label.size = batch
  entry : ∀ r < batch, Scalar.toNat? (label.entry r) = some (c r)

theorem Numbers.mapM_classOf (h : label.Numbers batch c) (hc : ∀ r < batch, c r < classes) :
    label.toList.mapM (classOf classes) = .ok ((List.range batch).map c) := by
  refine mapM_eq_ok_iff.mpr (List.forall₂_iff_get.mpr ⟨?_, ?_⟩)
  · rw [length_toList, List.length_map, List.length_range, h.size]
  · intro r hr hr'
    have hr : r < batch := by simpa using hr'
    rw [List.get_eq_getElem, getElem_toList, List.get_eq_getElem, List.getElem_map,
      List.getElem_range]
    exact classOf_ok (h.entry r hr) (hc r hr)

/-- Numbers are turned into rows of weights. -/
theorem denseTargets_of_classNumbers (h : label.Numbers batch c) (hc : ∀ r < batch, c r < classes)
    (hextents : label.extents ≠ [batch, classes]) :
    label.denseTargets batch classes = .ok (oneHots [batch] classes c) := by
  unfold denseTargets
  rw [if_neg hextents, if_neg (not_not.mpr h.size), h.mapM_classOf hc]
  refine congrArg Except.ok (ext_get rfl fun i hi => ?_)
  obtain ⟨l, j, rfl, hl, hj⟩ := Extents.exists_of_contains_concat (s := [batch]) hi
  obtain ⟨r, _, rfl, hr, hnil⟩ := Extents.exists_of_contains_cons hl
  obtain rfl := List.length_eq_zero_iff.mp (Extents.length_of_contains hnil)
  have hi : Extents.Contains [batch, classes] ([r] ++ [j]) := hi
  rw [get_generate hi, get_oneHots hl hj]
  simp [Extents.ravel, Extents.size, hr]

theorem denseTargets_oneHots (batch classes : Nat) (c : Nat → Nat) :
    (oneHots [batch] classes c : DenseArray α).denseTargets batch classes =
      .ok (oneHots [batch] classes c) := if_pos rfl

/-- The weight of a single class is not the number of it. -/
theorem mapM_classOf_oneHots (hone : Scalar.toNat? (1 : α) = some 1) (hbatch : 0 < lead.size)
    (hc : ∀ r < lead.size, c r < 1) (ns : List Nat) :
    (oneHots lead 1 c : DenseArray α).toList.mapM (classOf 1) ≠ .ok ns := by
  intro h
  have hsize : (lead ++ [1]).size = lead.size := by
    rw [Extents.size_append_one, Nat.mul_one]
  have hfirst : (oneHots lead 1 c : DenseArray α).entry 0 = 1 := by
    have hpos : 0 < (oneHots lead 1 c : DenseArray α).extents.size := hsize.symm ▸ hbatch
    obtain ⟨l, j, hij, hl, hj⟩ :=
      Extents.exists_of_contains_concat (s := lead) (Extents.contains_unravel hpos)
    obtain rfl := Nat.lt_one_iff.mp hj
    have hextents : (oneHots lead 1 c : DenseArray α).extents = lead ++ [1] := rfl
    rw [entry_eq_get hpos, hextents, hij, get_oneHots hl hj,
      if_pos (Nat.lt_one_iff.mp (hc _ (Extents.ravel_lt_size hl)))]
  have hlen : 0 < (oneHots lead 1 c : DenseArray α).toList.length := by
    rw [length_toList, size_oneHots, Nat.mul_one]
    exact hbatch
  obtain ⟨hlength, hall⟩ := List.forall₂_iff_get.mp (mapM_eq_ok_iff.mp h)
  have hclass := hall 0 hlen (hlength ▸ hlen)
  rw [List.get_eq_getElem, getElem_toList, hfirst, classOf, hone] at hclass
  cases hclass

/-- Rows of weights that are no matrix have too many entries, or a single class each, and then 1 is no
number of a class. -/
theorem denseTargets_oneHots_error (hone : Scalar.toNat? (1 : α) = some 1)
    (hlead : lead.length ≠ 1) (hbatch : 0 < lead.size) (hc : ∀ r < lead.size, c r < classes) :
    ∃ e, (oneHots lead classes c : DenseArray α).denseTargets lead.size classes = .error e := by
  have hextents : (oneHots lead classes c : DenseArray α).extents ≠ [lead.size, classes] := by
    intro h
    have hlen := congrArg List.length h
    simp only [oneHots, extents_generate, List.length_append, List.length_cons,
      List.length_nil] at hlen
    omega
  unfold denseTargets
  rw [if_neg hextents]
  by_cases hsize : (oneHots lead classes c : DenseArray α).size = lead.size
  · rw [if_neg (not_not.mpr hsize)]
    rw [size_oneHots] at hsize
    obtain rfl : classes = 1 := Nat.eq_of_mul_eq_mul_left hbatch (hsize.trans (Nat.mul_one _).symm)
    cases hchosen : (oneHots lead 1 c : DenseArray α).toList.mapM (classOf 1) with
    | error e => exact ⟨e, rfl⟩
    | ok ns => exact absurd hchosen (mapM_classOf_oneHots hone hbatch hc ns)
  · rw [if_pos hsize]
    exact ⟨_, rfl⟩

/-- The accuracy depends on the label by the targets only. -/
theorem accuracy_eq (hx : x.extents = lead ++ [classes]) (hclasses : 0 < classes)
    (label : DenseArray α) : x.accuracy label = (do
      let targets ← label.denseTargets lead.size classes
      let hits := (List.range lead.size).countP fun r =>
        Scalar.argmax (x.row r) == Scalar.argmax (targets.row r)
      return Scalar.ofNat hits / Scalar.ofNat (max lead.size 1)) := by
  have hcount : x.size / max classes 1 = lead.size := by
    rw [Nat.max_eq_left hclasses, ← width_of_concat hx]
    exact rowCount_of_concat hx hclasses
  unfold accuracy
  dsimp only
  rw [width_of_concat hx, hcount]

end DenseArray

end NeuralNet
