import NeuralNet.Proofs.Tape.Computes

/-!
# Arrays index by index

What operations on arrays give, told by the values at the indices: `get_stack` for arrays that are
stacked, and the indices that rearranging reads.
-/

namespace NeuralNet

/-! ## Indices -/

namespace Extents

variable {s : Extents} {i : List Nat} {axis : Nat}

/-- An axis of extent 1 does not change positions. -/
theorem ravel_insertIdx (haxis : axis ≤ s.length) (h : i.length = s.length) :
    ravel (s.insertIdx axis 1) (i.insertIdx axis 0) = ravel s i := by
  induction axis generalizing s i with
  | zero => simp [ravel]
  | succ axis ih =>
    cases s with
    | nil => cases haxis
    | cons m s =>
      cases i with
      | nil => cases h
      | cons j i =>
        have haxis := Nat.le_of_succ_le_succ haxis
        rw [List.insertIdx_succ_cons, List.insertIdx_succ_cons, ravel, ravel,
          ih haxis (Nat.succ.inj h), size_insertIdx 1 haxis, Nat.one_mul]

end Extents

namespace DenseArray

variable {α β : Type}

section

variable [Zero α] [Zero β] {a b : DenseArray α} {s : Extents} {i l : List Nat} {n k j axis : Nat}

/-! ## Rows -/

omit [Zero α] in
theorem width_of_concat (h : a.extents = s ++ [n]) : a.width = n := by
  rw [width, h, List.getLast?_concat, Option.getD_some]

omit [Zero α] in
theorem rowCount_of_concat (h : a.extents = s ++ [n]) (hn : 0 < n) : a.rowCount = s.size := by
  have hsize : a.size = a.extents.size := a.size_eq
  rw [rowCount, width_of_concat h, hsize, h, Extents.size_append]
  simp [Extents.size, hn]

omit [Zero α] in
theorem rowCount_of_pair (h : a.extents = [k, n]) (hn : 0 < n) : a.rowCount = k :=
  (rowCount_of_concat (s := [k]) h hn).trans (Nat.mul_one k)

theorem row_eq_map (h : a.extents = [k, n]) (j : Nat) :
    a.row j = (List.range n).map fun t => a.get [j, t] := by
  unfold row
  rw [width_of_concat (s := [k]) h]
  exact List.map_congr_left fun t _ => (get_pair h j t).symm

theorem row_generate (f : List Nat → α) (hj : j < k) :
    (generate [k, n] f).row j = (List.range n).map fun t => f [j, t] := by
  rw [row_eq_map rfl]
  refine List.map_congr_left fun t ht => ?_
  exact get_generate (s := [k, n]) (i := [j, t]) ⟨hj, List.mem_range.mp ht, trivial⟩ f

end

/-! ## Rearranged arrays -/

section

variable {s target : Extents} {r : Rearrangement} {i : List Nat} {n axis t : Nat}

theorem regroup_eq_ok (h : Rearrangement.regroup s target = .ok r) :
    r = ⟨target, fun i => s.unravel (target.ravel i), .regroup⟩ := by
  unfold Rearrangement.regroup at h
  split at h
  · cases h
    rfl
  · cases h

theorem select_eq_ok (h : Rearrangement.select s axis t = .ok r) :
    axis < s.length ∧ t < s.getD axis 0 ∧
      r = ⟨s.eraseIdx axis, fun i => i.insertIdx axis t, .select axis t⟩ := by
  obtain ⟨_, haxis, h⟩ := bind_eq_ok_iff.mp h
  unfold Rearrangement.checkAxis at haxis
  split at haxis
  · split at h
    · cases h
      exact ⟨‹_›, ‹_›, rfl⟩
    · cases h
  · cases haxis

theorem slice_eq_ok {start stop : Nat} (h : Rearrangement.slice (s ++ [n]) start stop = .ok r) :
    start ≤ stop ∧ stop ≤ n ∧
      r = ⟨s ++ [stop - start], fun i => i.modify s.length (· + start),
        .window s.length start (start + (stop - start))⟩ := by
  unfold Rearrangement.slice at h
  rw [List.getLast?_concat] at h
  dsimp only at h
  split at h
  · rename_i hbounds
    cases h
    refine ⟨hbounds.1, hbounds.2, ?_⟩
    simp [Rearrangement.window, List.set_append_right]
  · cases h

end

/-! ## Stacked arrays -/

section

variable [Scalar α] {a y : DenseArray α} {parts : List (DenseArray α)} {s : Extents}
  {r : Rearrangement} {i : List Nat} {n axis t : Nat}

theorem arrange_eq_ok {plan : Extents → Except Error Rearrangement} (h : a.arrange plan = .ok y) :
    ∃ r, plan a.extents = .ok r ∧ y = a.rearrange r := by
  obtain ⟨r, hr, h⟩ := bind_eq_ok_iff.mp h
  cases h
  exact ⟨r, hr, rfl⟩

/-- A new axis of extent 1 at index 0. -/
theorem get_raise (ha : a.extents = s) (haxis : axis ≤ s.length) (h : a.raise axis = .ok y) :
    y.extents = s.insertIdx axis 1 ∧ ∀ i, s.Contains i → y.get (i.insertIdx axis 0) = a.get i := by
  subst ha
  unfold raise at h
  rw [if_pos haxis] at h
  obtain ⟨r, hr, rfl⟩ := arrange_eq_ok h
  obtain rfl := regroup_eq_ok hr
  refine ⟨rfl, fun i hi => ?_⟩
  have hlen := Extents.length_of_contains hi
  rw [rearrange, get_gather (Extents.contains_insertIdx haxis hi Nat.one_pos)]
  dsimp only
  rw [Extents.ravel_insertIdx haxis hlen, Extents.unravel_ravel hi]

theorem partStart_ones (m : Nat) : partStart (List.replicate m 1) m = m := by
  have h := partStart_replicate m 1
  rwa [List.length_replicate, Nat.mul_one] at h

theorem locate_ones {m : Nat} (h : t < m) : locate (List.replicate m 1) t = (t, 0) := by
  induction m generalizing t with
  | zero => cases h
  | succ m ih =>
    rw [List.replicate_succ, locate]
    cases t with
    | zero => rfl
    | succ t =>
      rw [if_neg (by omega), Nat.add_sub_cancel, ih (Nat.lt_of_succ_lt_succ h)]

omit [Scalar α] in
theorem getD_insertIdx (n : Nat) (haxis : axis ≤ i.length) :
    (i.insertIdx axis n).getD axis 0 = n := by
  have hlt : axis < (i.insertIdx axis n).length := by
    rw [List.length_insertIdx_of_le_length haxis]
    omega
  rw [List.getD_eq_getElem?_getD, List.getElem?_eq_getElem hlt, List.getElem_insertIdx_self,
    Option.getD_some]

/-- Arrays with an axis of extent 1 are joined one at each index of the axis. -/
theorem get_concat_ones (hne : parts ≠ []) (hall : ∀ p ∈ parts, p.extents = s.insertIdx axis 1)
    (haxis : axis ≤ s.length) (h : concat axis parts = .ok y) :
    y.extents = s.insertIdx axis parts.length ∧
      ∀ t i, (ht : t < parts.length) → s.Contains i →
        y.get (i.insertIdx axis t) = (parts[t]).get (i.insertIdx axis 0) := by
  obtain ⟨first, rest, rfl⟩ := List.exists_cons_of_ne_nil hne
  have hlt : axis < (s.insertIdx axis 1).length := by
    rw [List.length_insertIdx_of_le_length haxis]
    omega
  have hlengths : (first :: rest).map (fun p : DenseArray α => p.extents.getD axis 0) =
      List.replicate (first :: rest).length 1 := by
    refine List.eq_replicate_iff.mpr ⟨List.length_map _, List.forall_mem_map.mpr fun p hp => ?_⟩
    rw [hall p hp, getD_insertIdx 1 haxis]
  have hfirst := hall first List.mem_cons_self
  unfold concat Rearrangement.checkAxis at h
  simp only [hfirst, hlt, if_true, hlengths, List.length_replicate, partStart_ones,
    Extents.set_insertIdx 1 _ haxis] at h
  split at h
  · split at h
    · cases h
    · cases h
      refine ⟨rfl, fun t i ht hi => ?_⟩
      have hi' := Extents.contains_insertIdx haxis hi ht
      have haxis' : axis ≤ i.length := Extents.length_of_contains hi ▸ haxis
      rw [get_generate hi', getD_insertIdx t haxis', locate_ones ht]
      simp only [Extents.set_insertIdx t 0 haxis', List.getElem?_toArray,
        List.getElem?_eq_getElem ht, Option.map_some, Option.getD_some]
  · cases h

/-- The array at index `t` of the new axis is part `t`. -/
theorem get_stack (hne : parts ≠ []) (hall : ∀ p ∈ parts, p.extents = s) (haxis : axis ≤ s.length)
    (h : stack parts axis = .ok y) :
    y.extents = s.insertIdx axis parts.length ∧
      ∀ t i, (ht : t < parts.length) → s.Contains i →
        y.get (i.insertIdx axis t) = (parts[t]).get i := by
  obtain ⟨raised, hraised, h⟩ := bind_eq_ok_iff.mp h
  have hall₂ := List.forall₂_iff_get.mp (mapM_eq_ok_iff.mp hraised)
  obtain ⟨hlen, hget⟩ := hall₂
  have hraise : ∀ t (ht : t < parts.length) (ht' : t < raised.length),
      (raised[t]).extents = s.insertIdx axis 1 ∧
        ∀ i, s.Contains i → (raised[t]).get (i.insertIdx axis 0) = (parts[t]).get i :=
    fun t ht ht' => get_raise (hall _ (List.getElem_mem ht)) haxis (hget t ht ht')
  have hne' : raised ≠ [] := List.ne_nil_of_length_pos (hlen ▸ List.length_pos_of_ne_nil hne)
  have hall' : ∀ p ∈ raised, p.extents = s.insertIdx axis 1 := by
    intro p hp
    obtain ⟨t, ht, rfl⟩ := List.getElem_of_mem hp
    exact (hraise t (hlen ▸ ht) ht).1
  obtain ⟨hextents, hvalues⟩ := get_concat_ones hne' hall' haxis h
  refine ⟨hlen ▸ hextents, fun t i ht hi => ?_⟩
  rw [hvalues t i (hlen ▸ ht) hi]
  exact (hraise t ht (hlen ▸ ht)).2 i hi

/-! ## Rows of a table -/

/-- The row that was chosen at an index is the one that the number there names. -/
theorem rowId_of_chosen {ids : DenseArray α} {rows : Nat} {chosen : List Nat}
    (h : ids.toList.mapM (Tensor.rowId rows) = .ok chosen) (hi : ids.extents.Contains i) :
    Tensor.rowId rows (ids.get i) = .ok (chosen.toArray.getD (ids.extents.ravel i) 0) := by
  obtain ⟨hlen, hget⟩ := List.forall₂_iff_get.mp (mapM_eq_ok_iff.mp h)
  have hlt := Extents.ravel_lt_size hi
  rw [← ids.size_eq] at hlt
  have hids : ids.extents.ravel i < ids.toList.length := by rwa [toList, Array.length_toList]
  have hentry : ids.get i = ids.toList[ids.extents.ravel i] := by
    simp [get, entry, toList, hlt]
  have hchosen : chosen.toArray.getD (ids.extents.ravel i) 0 = chosen[ids.extents.ravel i] := by
    simp [hlen ▸ hids]
  rw [hentry, hchosen]
  exact hget _ hids (hlen ▸ hids)

end

end DenseArray

end NeuralNet
