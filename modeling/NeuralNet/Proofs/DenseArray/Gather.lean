import Mathlib.Data.List.GetD
import Mathlib.Data.List.Perm.Subperm
import NeuralNet.Proofs.Checks
import NeuralNet.Proofs.DenseArray.Sums

/-!
# Where entries are taken from

What a rearrangement reads, told by a relation between the indices of the result and those of the
source that makes no mention of how positions are computed: the same row-major place, other axes in
another order, one index of an axis, a window of the last axis, a row of a table. Arrays that are
joined stand one behind the other along an axis. A gradient is added up where it was read.
-/

namespace NeuralNet

theorem modify_insertIdx {axis k : Nat} {l : List Nat} (haxis : axis ≤ l.length) (f : Nat → Nat) :
    (l.insertIdx axis k).modify axis f = l.insertIdx axis (f k) := by
  induction axis generalizing l with
  | zero => rfl
  | succ axis ih =>
    cases l with
    | nil => cases haxis
    | cons j l =>
      rw [List.insertIdx_succ_cons, List.insertIdx_succ_cons, List.modify_succ_cons,
        ih (Nat.le_of_succ_le_succ haxis)]

/-! ## Plans -/

namespace Rearrangement

/-- For each index of the result there is one index of the source that it is read at. -/
structure Follows (r : Rearrangement) (source : Extents) (Reads : List Nat → List Nat → Prop) :
    Prop where
  place : ∀ i, r.extents.Contains i → source.Contains (r.place i)
  reads : ∀ i j, r.extents.Contains i → source.Contains j → (Reads i j ↔ r.place i = j)

variable {source target : Extents} {r : Rearrangement} {axes : List Nat} {axis index : Nat}

theorem regroup_eq_ok_iff : regroup source target = .ok r ↔
    (target.addressable = true ∧ source.size = target.size) ∧
      r = ⟨target, fun i => source.unravel (target.ravel i), .regroup⟩ :=
  ite_ok_eq_ok_iff

/-- In row-major order nothing moves. -/
theorem follows_regroup (h : regroup source target = .ok r) :
    r.extents = target ∧ r.Follows source fun i j => target.ravel i = source.ravel j := by
  obtain ⟨⟨-, hsize⟩, rfl⟩ := regroup_eq_ok_iff.mp h
  have hplace : ∀ i, target.Contains i → target.ravel i < source.size := fun i hi =>
    hsize ▸ Extents.ravel_lt_size hi
  refine ⟨rfl, fun i hi => Extents.contains_unravel (hplace i hi), fun i j hi hj => ?_⟩
  constructor
  · intro heq
    dsimp only
    rw [heq, Extents.unravel_ravel hj]
  · rintro rfl
    rw [Extents.ravel_unravel (hplace i hi)]

theorem perm_range_iff {n : Nat} :
    axes.Perm (List.range n) ↔ axes.length = n ∧ (∀ a ∈ axes, a < n) ∧ axes.Nodup := by
  constructor
  · intro h
    exact ⟨by simpa using h.length_eq, fun a ha => List.mem_range.mp (h.mem_iff.mp ha),
      h.nodup_iff.mpr List.nodup_range⟩
  · rintro ⟨hlen, hlt, hnodup⟩
    have hsub : axes ⊆ List.range n := fun a ha => List.mem_range.mpr (hlt a ha)
    exact (List.subperm_of_subset hnodup hsub).perm_of_length_le (by simp [hlen])

theorem permute_eq_ok_iff : permute source axes = .ok r ↔
    axes.Perm (List.range source.length) ∧
      r = ⟨axes.map (source.getD · 0), permuted axes, .permute (reverseAxes axes)⟩ := by
  unfold permute
  dsimp only
  rw [ite_ok_eq_ok_iff, perm_range_iff]
  simp only [List.all_eq_true, decide_eq_true_eq]

theorem follows_permute (h : permute source axes = .ok r) :
    r.extents = axes.map (source.getD · 0) ∧
      r.Follows source fun i j => i = axes.map (j.getD · 0) := by
  obtain ⟨hperm, rfl⟩ := permute_eq_ok_iff.mp h
  obtain ⟨hlen, hlt, hnodup⟩ := perm_range_iff.mp hperm
  have hmem : ∀ a < source.length, a ∈ axes := fun a ha =>
    hperm.mem_iff.mpr (List.mem_range.mpr ha)
  have hplace : ∀ i, permuted axes i =
      (List.range source.length).map fun a => i.getD (axes.idxOf a) 0 := fun i => by
    rw [permuted, hlen]
  refine ⟨rfl, fun i hi => ?_, fun i j hi hj => ?_⟩
  · obtain ⟨-, hi⟩ := Extents.contains_iff_getD.mp hi
    dsimp only
    rw [hplace]
    refine Extents.contains_iff_getD.mpr ⟨by simp, fun a ha => ?_⟩
    have hidx := List.idxOf_lt_length_of_mem (hmem a ha)
    have hlt := hi (axes.idxOf a) (by simpa using hidx)
    simpa [List.getD_eq_getElem?_getD, List.getElem?_range ha, hidx] using hlt
  · have hi := Extents.length_of_contains hi
    have hj := Extents.length_of_contains hj
    rw [List.length_map] at hi
    dsimp only
    rw [hplace]
    constructor
    · rintro rfl
      refine List.ext_getElem (by simp [hj]) fun a ha _ => ?_
      have ha : a < source.length := by simpa using ha
      have hidx := List.idxOf_lt_length_of_mem (hmem a ha)
      simp [List.getD_eq_getElem?_getD, hidx, hj, ha]
    · rintro rfl
      refine List.ext_getElem (by simp [hi]) fun k hk _ => ?_
      have hk' : k < axes.length := hi ▸ hk
      have ha := hlt _ (List.getElem_mem hk')
      simp [List.getD_eq_getElem?_getD, List.getElem?_range ha, hnodup.idxOf_getElem, hk]

theorem select_eq_ok_iff : select source axis index = .ok r ↔
    axis < source.length ∧ index < source.getD axis 0 ∧
      r = ⟨source.eraseIdx axis, fun i => i.insertIdx axis index, .select axis index⟩ := by
  refine ⟨DenseArray.select_eq_ok, ?_⟩
  rintro ⟨haxis, hindex, rfl⟩
  unfold select checkAxis
  rw [if_pos haxis, if_pos hindex]
  rfl

theorem follows_select (h : select source axis index = .ok r) :
    r.extents = source.eraseIdx axis ∧ r.Follows source fun i j => j = i.insertIdx axis index := by
  obtain ⟨haxis, hindex, rfl⟩ := select_eq_ok_iff.mp h
  have hle : axis ≤ (source.eraseIdx axis).length := by
    rw [List.length_eraseIdx_of_lt haxis]
    omega
  refine ⟨rfl, fun i hi => ?_, fun i j _ _ => eq_comm⟩
  have hcontains := Extents.contains_insertIdx hle hi hindex
  rwa [Extents.insertIdx_eraseIdx haxis] at hcontains

theorem slice_eq_ok_iff {s : Extents} {n start stop : Nat} :
    slice (s ++ [n]) start stop = .ok r ↔ start ≤ stop ∧ stop ≤ n ∧
      r = ⟨s ++ [stop - start], fun i => i.modify s.length (· + start),
        .window s.length start (start + (stop - start))⟩ := by
  refine ⟨DenseArray.slice_eq_ok, ?_⟩
  rintro ⟨hstart, hstop, rfl⟩
  unfold slice
  rw [List.getLast?_concat]
  dsimp only
  rw [if_pos ⟨hstart, hstop⟩, window]
  simp

theorem follows_slice {start stop : Nat} (h : slice source start stop = .ok r) :
    r.extents = source.dropLast ++ [stop - start] ∧
      r.Follows source fun i j => ∃ l k, i = l ++ [k] ∧ j = l ++ [k + start] := by
  rcases List.eq_nil_or_concat' source with rfl | ⟨s, n, rfl⟩
  · cases h
  · obtain ⟨hstart, hstop, rfl⟩ := slice_eq_ok_iff.mp h
    have hplace : ∀ (l : List Nat) (k : Nat), l.length = s.length →
        (l ++ [k]).modify s.length (· + start) = l ++ [k + start] := by
      intro l k hl
      have hmodify := modify_insertIdx (k := k) (Nat.le_refl l.length) (· + start)
      rwa [List.insertIdx_length_self, List.insertIdx_length_self, hl] at hmodify
    rw [List.dropLast_concat]
    refine ⟨rfl, fun i hi => ?_, fun i j hi _ => ?_⟩
    · obtain ⟨l, k, rfl, hl, hk⟩ := Extents.exists_of_contains_concat hi
      dsimp only
      rw [hplace l k (Extents.length_of_contains hl)]
      exact Extents.contains_concat.mpr ⟨hl, by omega⟩
    · obtain ⟨l, k, rfl, hl, -⟩ := Extents.exists_of_contains_concat hi
      dsimp only
      rw [hplace l k (Extents.length_of_contains hl)]
      constructor
      · rintro ⟨l', k', heq, rfl⟩
        obtain ⟨rfl, hk⟩ := List.append_inj' heq rfl
        cases hk
        rfl
      · rintro rfl
        exact ⟨l, k, rfl, rfl⟩

section Rows

variable {α : Type} [Scalar α] {ids : DenseArray α} {chosen : List Nat} {rows width : Nat}
  {i : List Nat}

theorem rowId_eq_ok {a : α} {c : Nat} :
    Tensor.rowId rows a = .ok c ↔ Scalar.toNat? a = some c ∧ c < rows := by
  unfold Tensor.rowId
  cases Scalar.toNat? a with
  | none => simp
  | some n =>
    dsimp only
    split
    · simp only [Except.ok.injEq, Option.some.injEq]
      constructor
      · rintro rfl
        exact ⟨rfl, ‹_›⟩
      · exact And.left
    · rename_i hle
      simp only [reduceCtorEq, Option.some.injEq, false_iff]
      rintro ⟨rfl, hlt⟩
      exact hle hlt

theorem rows_eq_ok_iff {ids : Array Nat} {s : Extents} : Rearrangement.rows ids s width = .ok r ↔
    Extents.addressable (s ++ [width]) = true ∧
      r = ⟨s ++ [width], fun i => [ids.getD (s.ravel i.dropLast) 0, i.getLastD 0],
        .rows ids width⟩ :=
  ite_ok_eq_ok_iff

theorem follows_rows (hchosen : ids.toList.mapM (Tensor.rowId rows) = .ok chosen)
    (h : Rearrangement.rows chosen.toArray ids.extents width = .ok r) :
    r.extents = ids.extents ++ [width] ∧ r.Follows [rows, width] fun i j =>
      ∃ l k c, i = l ++ [k] ∧ j = [c, k] ∧ Scalar.toNat? (ids.get l) = some c := by
  obtain ⟨-, rfl⟩ := rows_eq_ok_iff.mp h
  refine ⟨rfl, fun i hi => ?_, fun i j hi _ => ?_⟩
  · obtain ⟨l, k, rfl, hl, hk⟩ := Extents.exists_of_contains_concat hi
    dsimp only
    rw [List.dropLast_concat, List.getLastD_concat]
    exact ⟨(rowId_eq_ok.mp (DenseArray.rowId_of_chosen hchosen hl)).2, hk, trivial⟩
  · obtain ⟨l, k, rfl, hl, -⟩ := Extents.exists_of_contains_concat hi
    have hnamed := (rowId_eq_ok.mp (DenseArray.rowId_of_chosen hchosen hl)).1
    dsimp only
    rw [List.dropLast_concat, List.getLastD_concat]
    constructor
    · rintro ⟨l', k', c, heq, rfl, hc⟩
      obtain ⟨rfl, hk⟩ := List.append_inj' heq rfl
      cases hk
      rw [hnamed] at hc
      cases hc
      rfl
    · rintro rfl
      exact ⟨l, k, _, rfl, rfl, hnamed⟩

end Rows

end Rearrangement

namespace DenseArray

section

variable {α : Type} [Zero α] {x : DenseArray α} {r : Rearrangement} {i j : List Nat}
  {Reads : List Nat → List Nat → Prop}

theorem get_rearrange (h : r.Follows x.extents Reads) (hi : r.extents.Contains i)
    (hj : x.extents.Contains j) (hread : Reads i j) : (x.rearrange r).get i = x.get j := by
  rw [rearrange, get_gather hi, (h.reads i j hi hj).mp hread]

end

/-! ## Parts that are joined -/

section Parts

theorem partStart_eq (lengths : List Nat) (p : Nat) :
    partStart lengths p = (lengths.take p).sum := by
  induction lengths generalizing p with
  | nil => simp [partStart]
  | cons n lengths ih =>
    cases p with
    | zero => rfl
    | succ p => rw [partStart, ih, List.take_succ_cons, List.sum_cons]

/-- A position that is reached along a part is found there. -/
theorem locate_eq {lengths : List Nat} {p n k : Nat} (hp : lengths[p]? = some n) (hk : k < n) :
    locate lengths ((lengths.take p).sum + k) = (p, k) := by
  induction lengths generalizing p with
  | nil => cases hp
  | cons m lengths ih =>
    cases p with
    | zero =>
      cases hp
      rw [List.take_zero, List.sum_nil, Nat.zero_add, locate, if_pos hk]
    | succ p =>
      rw [List.take_succ_cons, List.sum_cons, Nat.add_assoc, locate, if_neg (by omega),
        Nat.add_sub_cancel_left, ih hp]

theorem exists_part {lengths : List Nat} {t : Nat} (h : t < lengths.sum) :
    ∃ p n k, lengths[p]? = some n ∧ k < n ∧ t = (lengths.take p).sum + k := by
  induction lengths generalizing t with
  | nil => cases h
  | cons m lengths ih =>
    rw [List.sum_cons] at h
    by_cases ht : t < m
    · exact ⟨0, m, t, rfl, ht, by simp⟩
    · obtain ⟨p, n, k, hp, hk, heq⟩ := ih (t := t - m) (by omega)
      refine ⟨p + 1, n, k, hp, hk, ?_⟩
      rw [List.take_succ_cons, List.sum_cons]
      omega

variable {α : Type} [Zero α] {axis : Nat} {parts : List (DenseArray α)} {off : Extents}
  {x y : DenseArray α} {p n : Nat}

/-- The extents of arrays along an axis. -/
def lengths (axis : Nat) (parts : List (DenseArray α)) : List Nat :=
  parts.map fun x => x.extents.getD axis 0

/-- Arrays that differ along an axis only, one behind the other. -/
structure Joined (axis : Nat) (parts : List (DenseArray α)) (off : Extents) (y : DenseArray α) :
    Prop where
  axis_le : axis ≤ off.length
  part : ∀ x ∈ parts, x.extents = off.insertIdx axis (x.extents.getD axis 0)
  extents : y.extents = off.insertIdx axis (lengths axis parts).sum
  get : ∀ p x l k, parts[p]? = some x → off.Contains l → k < x.extents.getD axis 0 →
    y.get (l.insertIdx axis (((lengths axis parts).take p).sum + k)) = x.get (l.insertIdx axis k)

omit [Zero α] in
theorem lengths_of_part (hp : parts[p]? = some x) :
    (lengths axis parts)[p]? = some (x.extents.getD axis 0) := by
  rw [lengths, List.getElem?_map, hp, Option.map_some]

omit [Zero α] in
theorem add_lt_sum_lengths {k : Nat} (hp : parts[p]? = some x) (hk : k < x.extents.getD axis 0) :
    ((lengths axis parts).take p).sum + k < (lengths axis parts).sum := by
  have hle := (List.take_sublist (p + 1) (lengths axis parts)).sum_le_sum fun _ _ => Nat.zero_le _
  rw [List.take_add_one, lengths_of_part hp, List.sum_append, Option.toList_some,
    List.sum_singleton] at hle
  omega

/-- What is found at an index when arrays are joined. -/
def joinedEntry (axis : Nat) (parts : List (DenseArray α)) (i : List Nat) : α :=
  let (p, k) := locate (lengths axis parts) (i.getD axis 0)
  (parts[p]?.map fun x => x.get (i.set axis k)).getD 0

theorem joined_generate (haxis : axis ≤ off.length)
    (hparts : ∀ x ∈ parts, x.extents = off.insertIdx axis (x.extents.getD axis 0)) :
    Joined axis parts off
      (generate (off.insertIdx axis (lengths axis parts).sum) (joinedEntry axis parts)) := by
  refine ⟨haxis, hparts, rfl, fun p x l k hp hl hk => ?_⟩
  have hlength : (lengths axis parts)[p]? = some _ := lengths_of_part hp
  have haxis' : axis ≤ l.length := Extents.length_of_contains hl ▸ haxis
  rw [get_generate (Extents.contains_insertIdx haxis hl (add_lt_sum_lengths hp hk)), joinedEntry,
    getD_insertIdx _ haxis', locate_eq hlength hk]
  dsimp only
  rw [hp, Extents.set_insertIdx _ _ haxis', Option.map_some, Option.getD_some]

theorem concat_cons (axis : Nat) (first : DenseArray α) (rest : List (DenseArray α)) :
    concat axis (first :: rest) =
      if axis < first.extents.length then
        if ∀ x ∈ first :: rest, x.extents.length = first.extents.length ∧
            x.extents.eraseIdx axis = first.extents.eraseIdx axis then
          let joined := first.extents.set axis (lengths axis (first :: rest)).sum
          if Extents.addressable joined then
            .ok (generate joined (joinedEntry axis (first :: rest)))
          else .error (.array .overflow)
        else .error (.array .incompatibleExtents)
      else .error (.invalidArgument (.axis "cat" axis first.extents.length)) := by
  have hsame : ((first :: rest).all fun x : DenseArray α => x.rank == first.rank &&
      x.extents.eraseIdx axis == first.extents.eraseIdx axis) = true ↔
        ∀ x ∈ first :: rest, x.extents.length = first.extents.length ∧
          x.extents.eraseIdx axis = first.extents.eraseIdx axis := by
    simp only [List.all_eq_true, Bool.and_eq_true, beq_iff_eq, rank]
  have htotal := partStart_eq (lengths axis (first :: rest)) (lengths axis (first :: rest)).length
  rw [List.take_length] at htotal
  unfold lengths at htotal
  unfold concat Rearrangement.checkAxis lengths
  simp only [hsame, List.getElem?_toArray]
  rw [htotal]
  by_cases haxis : axis < first.extents.length
  · rw [if_pos haxis, if_pos haxis]
    change (ite _ _ _ : Except Error (DenseArray α)) = _
    split
    · by_cases hroom : Extents.addressable (first.extents.set axis
          ((first :: rest).map fun x => x.extents.getD axis 0).sum) = true
      · rw [if_pos hroom, if_neg (by rw [hroom]; decide)]
        rfl
      · rw [if_neg hroom, if_pos (by rw [Bool.eq_false_iff.mpr hroom]; rfl)]
        rfl
    · rfl
  · rw [if_neg haxis, if_neg haxis]
    rfl

/-- Arrays that agree off the axis are joined if there is room. -/
theorem concat_of_parts (hne : parts ≠ []) (haxis : axis ≤ off.length)
    (hparts : ∀ x ∈ parts, x.extents = off.insertIdx axis (x.extents.getD axis 0))
    (h : Extents.addressable (off.insertIdx axis (lengths axis parts).sum) = true) :
    ∃ y, concat axis parts = .ok y ∧ Joined axis parts off y := by
  obtain ⟨first, rest, rfl⟩ := List.exists_cons_of_ne_nil hne
  refine ⟨_, ?_, joined_generate haxis hparts⟩
  have hlength : ∀ x ∈ first :: rest, x.extents.length = off.length + 1 := fun x hx => by
    rw [hparts x hx, List.length_insertIdx_of_le_length haxis]
  have hoff : ∀ x ∈ first :: rest, x.extents.eraseIdx axis = off := fun x hx => by
    rw [hparts x hx, List.eraseIdx_insertIdx_self]
  have hfirst := List.mem_cons_self (a := first) (l := rest)
  have hjoined : first.extents.set axis (lengths axis (first :: rest)).sum =
      off.insertIdx axis (lengths axis (first :: rest)).sum := by
    rw [hparts first hfirst, Extents.set_insertIdx _ _ haxis]
  rw [concat_cons, if_pos (hlength first hfirst ▸ Nat.lt_succ_of_le haxis), if_pos fun x hx =>
    ⟨(hlength x hx).trans (hlength first hfirst).symm, (hoff x hx).trans (hoff first hfirst).symm⟩,
    hjoined]
  exact if_pos h

/-- What is joined agrees off the axis, and there is room for it. -/
theorem joined_of_concat (h : concat axis parts = .ok y) :
    ∃ off, Joined axis parts off y ∧ y.extents.addressable = true := by
  cases parts with
  | nil => cases h
  | cons first rest =>
    rw [concat_cons] at h
    split at h
    · rename_i haxis
      split at h
      · rename_i hsame
        dsimp only at h
        split at h
        · rename_i hroom
          cases h
          have hle : axis ≤ (first.extents.eraseIdx axis).length := by
            rw [List.length_eraseIdx_of_lt haxis]
            omega
          have hparts : ∀ x ∈ first :: rest,
              x.extents = (first.extents.eraseIdx axis).insertIdx axis (x.extents.getD axis 0) := by
            intro x hx
            obtain ⟨hlength, hoff⟩ := hsame x hx
            rw [← hoff, Extents.insertIdx_eraseIdx (hlength ▸ haxis)]
          refine ⟨first.extents.eraseIdx axis, ?_, hroom⟩
          have hjoined : first.extents.set axis (lengths axis (first :: rest)).sum =
              (first.extents.eraseIdx axis).insertIdx axis
                (lengths axis (first :: rest)).sum := by
            conv_lhs => rw [hparts first List.mem_cons_self, Extents.set_insertIdx _ _ hle]
          rw [hjoined]
          exact joined_generate hle hparts
        · cases h
      · cases h
    · cases h

variable {i j j' : List Nat} {x' : DenseArray α} {p' : Nat}

/-- An index of a part is moved along the axis by what stands before the part. -/
def moveInto (axis : Nat) (parts : List (DenseArray α)) (p : Nat) (j : List Nat) : List Nat :=
  j.modify axis (· + ((lengths axis parts).take p).sum)

theorem Joined.exists_index (h : Joined axis parts off y) (hp : parts[p]? = some x)
    (hj : x.extents.Contains j) : ∃ l k, j = l.insertIdx axis k ∧ off.Contains l ∧
      k < x.extents.getD axis 0 ∧
      moveInto axis parts p j = l.insertIdx axis (((lengths axis parts).take p).sum + k) := by
  rw [h.part x (List.mem_of_getElem? hp)] at hj
  obtain ⟨l, k, rfl, hl, hk⟩ := Extents.exists_of_contains_insertIdx h.axis_le hj
  have haxis : axis ≤ l.length := Extents.length_of_contains hl ▸ h.axis_le
  refine ⟨l, k, rfl, hl, hk, ?_⟩
  rw [moveInto, modify_insertIdx haxis, Nat.add_comm]

theorem Joined.get_moveInto (h : Joined axis parts off y) (hp : parts[p]? = some x)
    (hj : x.extents.Contains j) : y.get (moveInto axis parts p j) = x.get j := by
  obtain ⟨l, k, rfl, hl, hk, hmove⟩ := h.exists_index hp hj
  rw [hmove]
  exact h.get p x l k hp hl hk

theorem Joined.contains_moveInto (h : Joined axis parts off y) (hp : parts[p]? = some x)
    (hj : x.extents.Contains j) : y.extents.Contains (moveInto axis parts p j) := by
  obtain ⟨l, k, rfl, hl, hk, hmove⟩ := h.exists_index hp hj
  rw [hmove, h.extents]
  exact Extents.contains_insertIdx h.axis_le hl (add_lt_sum_lengths hp hk)

theorem Joined.exists_moveInto (h : Joined axis parts off y) (hi : y.extents.Contains i) :
    ∃ p x j, parts[p]? = some x ∧ x.extents.Contains j ∧ i = moveInto axis parts p j := by
  rw [h.extents] at hi
  obtain ⟨l, t, rfl, hl, ht⟩ := Extents.exists_of_contains_insertIdx h.axis_le hi
  obtain ⟨p, n, k, hp, hk, rfl⟩ := exists_part ht
  rw [lengths, List.getElem?_map, Option.map_eq_some_iff] at hp
  obtain ⟨x, hp, rfl⟩ := hp
  have haxis : axis ≤ l.length := Extents.length_of_contains hl ▸ h.axis_le
  refine ⟨p, x, l.insertIdx axis k, hp, ?_, ?_⟩
  · rw [h.part x (List.mem_of_getElem? hp)]
    exact Extents.contains_insertIdx h.axis_le hl hk
  · rw [moveInto, modify_insertIdx haxis, Nat.add_comm]

theorem Joined.moveInto_inj (h : Joined axis parts off y) (hp : parts[p]? = some x)
    (hp' : parts[p']? = some x') (hj : x.extents.Contains j) (hj' : x'.extents.Contains j')
    (heq : moveInto axis parts p j = moveInto axis parts p' j') : p = p' ∧ j = j' := by
  obtain ⟨l, k, rfl, hl, hk, hmove⟩ := h.exists_index hp hj
  obtain ⟨l', k', rfl, hl', hk', hmove'⟩ := h.exists_index hp' hj'
  rw [hmove, hmove'] at heq
  have hlen := Extents.length_of_contains hl
  have hlen' := Extents.length_of_contains hl'
  have hrest := congrArg (List.eraseIdx · axis) heq
  simp only [List.eraseIdx_insertIdx_self] at hrest
  have hplace := congrArg (List.getD · axis 0) heq
  simp only [getD_insertIdx _ (hlen ▸ h.axis_le), getD_insertIdx _ (hlen' ▸ h.axis_le)] at hplace
  have hfound := locate_eq (lengths_of_part hp) hk
  rw [hplace, locate_eq (lengths_of_part hp') hk'] at hfound
  obtain ⟨rfl, rfl⟩ := Prod.mk.inj hfound
  rw [hrest]
  exact ⟨rfl, rfl⟩

/-- What goes back to a part is what is read along it. -/
theorem Joined.get_window {g : DenseArray α} (h : Joined axis parts off y)
    (hp : parts[p]? = some x) (hg : g.extents = y.extents) :
    let d := g.rearrange (.window g.extents axis (partStart (lengths axis parts) p)
      ((lengths axis parts).getD p 0))
    d.extents = x.extents ∧
      ∀ j, x.extents.Contains j → d.get j = g.get (moveInto axis parts p j) := by
  intro d
  have hlength : (lengths axis parts).getD p 0 = x.extents.getD axis 0 := by
    rw [List.getD_eq_getElem?_getD, lengths_of_part hp, Option.getD_some]
  have hextents : d.extents = x.extents := by
    change g.extents.set axis ((lengths axis parts).getD p 0) = x.extents
    rw [hg, h.extents, Extents.set_insertIdx _ _ h.axis_le, hlength,
      ← h.part x (List.mem_of_getElem? hp)]
  refine ⟨hextents, fun j hj => ?_⟩
  refine (get_gather (s := d.extents) (hextents.symm ▸ hj) g _).trans ?_
  change g.get (j.modify axis (· + partStart (lengths axis parts) p)) = _
  rw [partStart_eq, moveInto]

end Parts

end DenseArray

end NeuralNet
