import NeuralNet.Proofs.DenseArray.Product
import NeuralNet.Proofs.DenseArray.SumBack

/-!
# The way back of a rearrangement

What is computed on the way back is not derived from the places that entries are read at: axes are put
in reverse order, a gradient is written into zeros, rows are added to a table. For each plan it comes
to the same: every entry of the source gets the sum of the entries of the gradient that it was read
for.

* `DenseArray.collapses_of_injOn`: what is read once only;
* `Rearrangement.reverseAxes_eq`: the loop that fills in the reverse axes;
* `Rearrangement.Returns`: the way back adds up where entries were read, for each plan in turn.
-/

namespace NeuralNet

open Finset (range)

theorem DenseArray.collapses_of_injOn {α : Type} [AddCommMonoid α] {f : List Nat → List Nat}
    {g d : DenseArray α} (hmaps : ∀ i, g.extents.Contains i → d.extents.Contains (f i))
    (hinj : ∀ i i', g.extents.Contains i → g.extents.Contains i' → f i = f i' → i = i')
    (hread : ∀ i, g.extents.Contains i → d.get (f i) = g.get i)
    (hother : ∀ p, d.extents.Contains p → (∀ i, g.extents.Contains i → f i ≠ p) → d.get p = 0) :
    Collapses f g d := by
  refine ⟨hmaps, fun p hp => ?_⟩
  rw [Finset.sum_filter]
  by_cases hfound : ∃ i, g.extents.Contains i ∧ f i = p
  · obtain ⟨i, hi, rfl⟩ := hfound
    rw [Finset.sum_eq_single_of_mem i (Extents.mem_box.mpr hi), if_pos rfl, hread i hi]
    intro i' hi' hne
    exact if_neg fun h => hne (hinj i' i (Extents.mem_box.mp hi') hi h)
  · have hnone : ∀ i, g.extents.Contains i → f i ≠ p := fun i hi h => hfound ⟨i, hi, h⟩
    rw [hother p hp hnone]
    exact (Finset.sum_eq_zero fun i hi => if_neg (hnone i (Extents.mem_box.mp hi))).symm

namespace Rearrangement

open DenseArray (Collapses)

variable {source target : Extents} {r : Rearrangement} {axes : List Nat} {axis index : Nat}

/-- The way back ends with the extents of the source, and every entry is the sum of those of the
gradient that it was read for. -/
structure Returns (r : Rearrangement) (source : Extents) : Prop where
  exists_back : ∀ {α : Type} [AddCommMonoid α] (g : DenseArray α), g.extents = r.extents →
    ∃ d, g.bringBack source r.back = .ok d ∧ d.extents = source ∧ Collapses r.place g d

theorem returns_regroup (h : regroup source target = .ok r) : r.Returns source := by
  obtain ⟨⟨-, hsize⟩, rfl⟩ := regroup_eq_ok_iff.mp h
  constructor
  intro α _ g (hg : g.extents = target)
  obtain ⟨d, hd, hextents, hentry⟩ := DenseArray.exists_regroup (a := g) (hg ▸ hsize.symm)
  have hplace : ∀ i, g.extents.Contains i → target.ravel i < source.size := fun i hi =>
    hsize ▸ hg ▸ Extents.ravel_lt_size hi
  refine ⟨d, hd, hextents, DenseArray.collapses_of_injOn ?_ ?_ ?_ ?_⟩
  · exact fun i hi => hextents.symm ▸ Extents.contains_unravel (hplace i hi)
  · intro i i' hi hi' heq
    have hravel := congrArg source.ravel heq
    rw [Extents.ravel_unravel (hplace i hi), Extents.ravel_unravel (hplace i' hi')] at hravel
    exact (Extents.ravel_inj (hg ▸ hi) (hg ▸ hi')).mp hravel
  · intro i hi
    rw [DenseArray.get, hextents, Extents.ravel_unravel (hplace i hi), hentry, DenseArray.get, hg]
  · intro p hp hnone
    rw [hextents] at hp
    have hlt : source.ravel p < target.size := hsize ▸ Extents.ravel_lt_size hp
    have hi : g.extents.Contains (target.unravel (source.ravel p)) :=
      hg.symm ▸ Extents.contains_unravel hlt
    refine absurd ?_ (hnone _ hi)
    dsimp only
    rw [Extents.ravel_unravel hlt, Extents.unravel_ravel hp]

/-! ## Reverse axes -/

/-- After the first `k` axes the loop has filled in where each of them stands. -/
theorem getElem?_foldl_set (hnodup : axes.Nodup) (k : Nat) (reverse : List Nat) {a : Nat}
    (ha : a < reverse.length) :
    ((axes.zipIdx k).foldl (fun reverse q => reverse.set q.1 q.2) reverse)[a]? =
      if a ∈ axes then some (k + axes.idxOf a) else reverse[a]? := by
  induction axes generalizing k reverse with
  | nil => simp
  | cons x axes ih =>
    obtain ⟨hx, hnodup⟩ := List.nodup_cons.mp hnodup
    rw [List.zipIdx_cons, List.foldl_cons, ih hnodup (k + 1) _ (by rwa [List.length_set])]
    by_cases hmem : a ∈ axes
    · have hne : x ≠ a := by
        rintro rfl
        exact hx hmem
      rw [if_pos hmem, if_pos (List.mem_cons_of_mem x hmem), List.idxOf_cons_ne _ hne]
      congr 1
      omega
    · rw [if_neg hmem]
      by_cases heq : x = a
      · subst heq
        rw [if_pos List.mem_cons_self, List.getElem?_set_self ha, List.idxOf_cons_self, Nat.add_zero]
      · rw [if_neg (by simp [hmem, Ne.symm heq]), List.getElem?_set_ne heq]

theorem length_reverseAxes (axes : List Nat) : (reverseAxes axes).length = axes.length := by
  have hlen : ∀ (l : List (Nat × Nat)) (reverse : List Nat),
      (l.foldl (fun reverse q => reverse.set q.1 q.2) reverse).length = reverse.length := by
    intro l
    induction l with
    | nil => exact fun _ => rfl
    | cons q l ih => exact fun reverse => (ih _).trans (List.length_set ..)
  exact (hlen _ _).trans (List.length_replicate ..)

/-- Where an axis stands is written at the axis. -/
theorem reverseAxes_eq (h : axes.Perm (List.range axes.length)) :
    reverseAxes axes = (List.range axes.length).map axes.idxOf := by
  refine List.ext_getElem? fun a => ?_
  by_cases ha : a < axes.length
  · have hmem : a ∈ axes := h.mem_iff.mpr (List.mem_range.mpr ha)
    have hfilled := getElem?_foldl_set (h.nodup_iff.mpr List.nodup_range) 0
      (List.replicate axes.length 0) (a := a) (by rwa [List.length_replicate])
    rw [if_pos hmem, Nat.zero_add] at hfilled
    exact hfilled.trans (by simp [ha])
  · rw [List.getElem?_eq_none (by rw [length_reverseAxes]; omega),
      List.getElem?_eq_none (by simp; omega)]

theorem permuted_reverseAxes (h : axes.Perm (List.range axes.length)) (j : List Nat) :
    permuted (reverseAxes axes) j = axes.map (j.getD · 0) := by
  obtain ⟨-, hlt, hnodup⟩ := perm_range_iff.mp h
  have hinj : ∀ a ∈ List.range axes.length, ∀ b ∈ List.range axes.length,
      axes.idxOf a = axes.idxOf b → a = b := by
    intro a ha b hb heq
    have ha := List.idxOf_lt_length_of_mem (h.mem_iff.mpr ha)
    rw [← List.getElem_idxOf ha]
    simp only [heq, List.getElem_idxOf]
  refine List.ext_getElem (by simp [permuted, length_reverseAxes]) fun k hk hk' => ?_
  have hk' : k < axes.length := by simpa using hk'
  have hstands : (reverseAxes axes).idxOf k = axes[k] := by
    have hlt := hlt _ (List.getElem_mem hk')
    have hbound : axes[k] < (reverseAxes axes).length := by rwa [length_reverseAxes]
    have hget : (reverseAxes axes)[axes[k]] = k := by
      simp [reverseAxes_eq h, hnodup.idxOf_getElem]
    have hnodup' : (reverseAxes axes).Nodup := by
      rw [reverseAxes_eq h]
      exact (List.nodup_map_iff_inj_on List.nodup_range).mpr hinj
    rw [← hnodup'.idxOf_getElem (axes[k]) hbound, hget]
  simp [permuted, hstands]

/-- The extents are permuted as indices are, so that they come back too. -/
theorem map_reverseAxes {g : Extents} (hperm : axes.Perm (List.range axes.length))
    (hlen : axes.length = source.length) (hg : g = axes.map (source.getD · 0)) :
    (reverseAxes axes).map (g.getD · 0) = source := by
  refine List.ext_getElem (by rw [List.length_map, length_reverseAxes, hlen]) fun a ha ha' => ?_
  have hmem : a ∈ axes := hperm.mem_iff.mpr (List.mem_range.mpr (hlen ▸ ha'))
  have hidx := List.idxOf_lt_length_of_mem hmem
  simp [reverseAxes_eq hperm, hg, hidx, ha']

theorem contains_map_getD {j : List Nat} (hlt : ∀ a ∈ axes, a < source.length)
    (hj : source.Contains j) :
    Extents.Contains (axes.map (source.getD · 0)) (axes.map (j.getD · 0)) := by
  obtain ⟨-, hj⟩ := Extents.contains_iff_getD.mp hj
  refine Extents.contains_iff_getD.mpr ⟨by simp, fun k hk => ?_⟩
  have hk : k < axes.length := by simpa using hk
  have hentry := hj _ (hlt _ (List.getElem_mem hk))
  simpa [hk] using hentry

theorem returns_permute (h : permute source axes = .ok r) : r.Returns source := by
  obtain ⟨-, hfollows⟩ := follows_permute h
  obtain ⟨hperm, rfl⟩ := permute_eq_ok_iff.mp h
  have hlen : axes.length = source.length := (perm_range_iff.mp hperm).1
  have hperm : axes.Perm (List.range axes.length) := hlen ▸ hperm
  constructor
  intro α _ g (hg : g.extents = axes.map (source.getD · 0))
  have hextents : (reverseAxes axes).map (g.extents.getD · 0) = source :=
    map_reverseAxes hperm hlen hg
  have hplace : ∀ j, source.Contains j → ∀ i, g.extents.Contains i →
      (i = axes.map (j.getD · 0) ↔ permuted axes i = j) := fun j hj i hi =>
    hfollows.reads i j (hg ▸ hi) hj
  have hmaps : ∀ i, g.extents.Contains i → source.Contains (permuted axes i) := fun i hi =>
    hfollows.place i (hg ▸ hi)
  have hback : ∀ j, source.Contains j → g.extents.Contains (axes.map (j.getD · 0)) := by
    intro j hj
    rw [hg]
    exact contains_map_getD (fun a ha => hlen ▸ (perm_range_iff.mp hperm).2.1 a ha) hj
  refine ⟨_, rfl, hextents, DenseArray.collapses_of_injOn ?_ ?_ ?_ ?_⟩
  · exact fun i hi => hextents.symm ▸ hmaps i hi
  · intro i i' hi hi' heq
    rw [(hplace _ (hmaps i hi) i hi).mpr rfl]
    exact ((hplace _ (hmaps i hi) i' hi').mpr heq.symm).symm
  · intro i hi
    rw [DenseArray.get_gather (hextents.symm ▸ hmaps i hi), permuted_reverseAxes hperm,
      ← (hplace _ (hmaps i hi) i hi).mpr rfl]
  · intro p hp hnone
    have hp : source.Contains p := hextents ▸ hp
    exact absurd ((hplace p hp _ (hback p hp)).mp rfl) (hnone _ (hback p hp))

/-! ## Into zeros -/

theorem returns_select (h : select source axis index = .ok r) : r.Returns source := by
  obtain ⟨-, hfollows⟩ := follows_select h
  obtain ⟨haxis, -, rfl⟩ := select_eq_ok_iff.mp h
  have hle : axis ≤ (source.eraseIdx axis).length := by
    rw [List.length_eraseIdx_of_lt haxis]
    omega
  constructor
  intro α _ g (hg : g.extents = source.eraseIdx axis)
  have hrank : ∀ i, g.extents.Contains i → axis ≤ i.length := fun i hi => by
    rw [Extents.length_of_contains hi, hg]
    exact hle
  refine ⟨_, rfl, rfl, DenseArray.collapses_of_injOn ?_ ?_ ?_ ?_⟩
  · exact fun i hi => hfollows.place i (hg ▸ hi)
  · intro i i' _ _ heq
    have herase := congrArg (List.eraseIdx · axis) heq
    simpa only [List.eraseIdx_insertIdx_self] using herase
  · intro i hi
    rw [DenseArray.get_generate (hfollows.place i (hg ▸ hi)),
      if_pos (DenseArray.getD_insertIdx index (hrank i hi)), List.eraseIdx_insertIdx_self]
  · intro p (hp : source.Contains p) hnone
    rw [DenseArray.get_generate hp, if_neg]
    rintro rfl
    rw [← Extents.insertIdx_eraseIdx haxis] at hp
    obtain ⟨l, k, rfl, hl, -⟩ := Extents.exists_of_contains_insertIdx hle hp
    refine hnone l (hg ▸ hl) ?_
    dsimp only
    rw [DenseArray.getD_insertIdx k (hrank l (hg ▸ hl))]

theorem returns_slice {start stop : Nat} (h : slice source start stop = .ok r) :
    r.Returns source := by
  obtain ⟨-, hfollows⟩ := follows_slice h
  rcases List.eq_nil_or_concat' source with rfl | ⟨s, n, rfl⟩
  · cases h
  obtain ⟨hstart, hstop, rfl⟩ := slice_eq_ok_iff.mp h
  constructor
  intro α _ g (hg : g.extents = s ++ [stop - start])
  have hplace : ∀ l k, Extents.Contains s l → k < stop - start →
      (l ++ [k]).modify s.length (· + start) = l ++ [k + start] := by
    intro l k hl hk
    exact (hfollows.reads (l ++ [k]) _ (Extents.contains_concat.mpr ⟨hl, hk⟩)
      (Extents.contains_concat.mpr ⟨hl, by omega⟩)).mp ⟨l, k, rfl, rfl⟩
  have hlast : ∀ (l : List Nat) (k : Nat), Extents.Contains s l → (l ++ [k]).getD s.length 0 = k ∧
      (l ++ [k]).set s.length (k - start) = l ++ [k - start] := by
    intro l k hl
    have hlen := Extents.length_of_contains hl
    simp [← hlen]
  refine ⟨_, rfl, rfl, DenseArray.collapses_of_injOn ?_ ?_ ?_ ?_⟩
  · exact fun i hi => hfollows.place i (hg ▸ hi)
  · intro i i' hi hi' heq
    obtain ⟨l, k, rfl, hl, hk⟩ := Extents.exists_of_contains_concat (hg ▸ hi)
    obtain ⟨l', k', rfl, hl', hk'⟩ := Extents.exists_of_contains_concat (hg ▸ hi')
    dsimp only at heq
    rw [hplace l k hl hk, hplace l' k' hl' hk'] at heq
    obtain ⟨rfl, hkeq⟩ := List.append_inj' heq rfl
    obtain rfl : k = k' := Nat.add_right_cancel (List.cons.inj hkeq).1
    rfl
  · intro i hi
    obtain ⟨l, k, rfl, hl, hk⟩ := Extents.exists_of_contains_concat (hg ▸ hi)
    obtain ⟨hget, hset⟩ := hlast l (k + start) hl
    dsimp only
    rw [hplace l k hl hk,
      DenseArray.get_generate (Extents.contains_concat.mpr ⟨hl, by omega⟩), hget, hset,
      if_pos (by omega), Nat.add_sub_cancel]
  · intro p (hp : Extents.Contains (s ++ [n]) p) hnone
    obtain ⟨l, k, rfl, hl, hk⟩ := Extents.exists_of_contains_concat hp
    obtain ⟨hget, -⟩ := hlast l k hl
    rw [DenseArray.get_generate hp]
    dsimp only
    rw [hget, if_neg]
    rintro ⟨hle, hlt⟩
    have hk' : k - start < stop - start := by omega
    refine hnone (l ++ [k - start]) (hg ▸ Extents.contains_concat.mpr ⟨hl, hk'⟩) ?_
    dsimp only
    rw [hplace l _ hl hk', Nat.sub_add_cancel hle]

/-! ## Rows of a table -/

/-- The entry at a position of the gradient was read where its row is added to the table. -/
theorem place_rows_unravel {ids : Array Nat} {s : Extents} {width p : Nat}
    (hids : ids.size = s.size) (hp : p < ids.size * width) :
    [ids.getD (s.ravel (Extents.unravel (s ++ [width]) p).dropLast) 0,
      (Extents.unravel (s ++ [width]) p).getLastD 0] = [ids.getD (p / width) 0, p % width] := by
  have hrow : p / width < s.size := by
    rw [← hids]
    exact Nat.div_lt_of_lt_mul (Nat.mul_comm _ _ ▸ hp)
  have hp : p < Extents.size (s ++ [width]) := by rwa [Extents.size_append_one, ← hids]
  rw [Extents.unravel_concat hp, List.dropLast_concat, List.getLastD_concat,
    Extents.ravel_unravel hrow]

/-- Rows that are added one after the other. -/
theorem returns_rows {ids : Array Nat} {s : Extents} {rows width : Nat} (hids : ids.size = s.size)
    (hnamed : ∀ k < ids.size, ids.getD k 0 < rows)
    (h : Rearrangement.rows ids s width = .ok r) : r.Returns [rows, width] := by
  obtain ⟨-, rfl⟩ := rows_eq_ok_iff.mp h
  constructor
  intro α _ g (hg : g.extents = s ++ [width])
  have hsize : g.extents.size = ids.size * width := by rw [hg, Extents.size_append_one, hids]
  obtain ⟨x, hx, -, hentry⟩ := DenseArray.exists_regroup (a := g) (s := [ids.size, width]) (by
    rw [hsize, Extents.size, Extents.size, Extents.size, Nat.mul_one])
  let place (p : Nat) : List Nat := [ids.getD (p / width) 0, p % width]
  have hplace : ∀ p < ids.size * width, Extents.Contains [rows, width] (place p) := by
    intro p hp
    have hwidth : 0 < width := Nat.pos_of_mul_pos_left (Nat.zero_lt_of_lt hp)
    exact ⟨hnamed _ (Nat.div_lt_of_lt_mul (Nat.mul_comm _ _ ▸ hp)), Nat.mod_lt p hwidth, trivial⟩
  have hread : ∀ p < ids.size * width, [ids.getD (s.ravel (g.extents.unravel p).dropLast) 0,
      (g.extents.unravel p).getLastD 0] = place p := by
    intro p hp
    rw [hg]
    exact place_rows_unravel hids hp
  refine ⟨DenseArray.collect [rows, width] (ids.size * width) (fun p => some (place p)) x.entry,
    ?_, rfl, ?_, fun j (hj : Extents.Contains [rows, width] j) => ?_⟩
  · change (g.regroup [ids.size, width] >>= _) = _
    rw [hx]
    rfl
  · intro i hi
    have hp := Extents.ravel_lt_size hi
    have heq := hread _ (hsize ▸ hp)
    rw [Extents.unravel_ravel hi] at heq
    change Extents.Contains [rows, width] [_, _]
    rw [heq]
    exact hplace _ (hsize ▸ hp)
  · rw [DenseArray.get_collect (fun p hp q hq => Option.some.inj hq ▸ hplace p hp) hj,
      Finset.sum_filter, ← Extents.sum_unravel, hsize]
    apply Finset.sum_congr rfl
    intro p hp
    have hp := Finset.mem_range.mp hp
    have hentry : x.entry p = g.get (g.extents.unravel p) :=
      (hentry p).trans (DenseArray.entry_eq_get (hsize.symm ▸ hp))
    simp only [hread p hp, hentry, Option.some.injEq]

theorem returns_chosen {α : Type} [Scalar α] {ids : DenseArray α} {chosen : List Nat}
    {rows width : Nat} (hchosen : ids.toList.mapM (Tensor.rowId rows) = .ok chosen)
    (h : Rearrangement.rows chosen.toArray ids.extents width = .ok r) : r.Returns [rows, width] := by
  have hids : chosen.toArray.size = ids.extents.size := by
    have hlen := (mapM_eq_ok_iff.mp hchosen).length_eq
    rw [DenseArray.toList, Array.length_toList, ids.size_eq] at hlen
    exact hlen.symm
  refine returns_rows hids (fun k hk => ?_) h
  have hk : k < ids.extents.size := hids ▸ hk
  have hnamed := DenseArray.rowId_of_chosen hchosen (Extents.contains_unravel hk)
  rw [Extents.ravel_unravel hk] at hnamed
  exact (rowId_eq_ok.mp hnamed).2

/-- Sent back, a gradient is added up where it was read. -/
theorem Follows.get_back {α : Type} [AddCommMonoid α] {d g : DenseArray α} {j : List Nat}
    {Reads : List Nat → List Nat → Prop} [∀ i j, Decidable (Reads i j)]
    (h : r.Follows source Reads) (hg : g.extents = r.extents) (hd : d.extents = source)
    (hback : Collapses r.place g d) (hj : source.Contains j) :
    d.get j = ∑ i ∈ g.extents.box with Reads i j, g.get i := by
  rw [hback.entry j (hd ▸ hj)]
  refine Finset.sum_congr (Finset.filter_congr fun i hi => ?_) fun _ _ => rfl
  exact (h.reads i j (hg ▸ Extents.mem_box.mp hi) hj).symm

end Rearrangement

end NeuralNet
