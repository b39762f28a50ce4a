import NeuralNet.Proofs.Tape.Gather

/-!
# When entries can be put elsewhere

What the operands and the other arguments of an operation have to be for a run to succeed, told
without the plan that is made of them.
-/

namespace NeuralNet

namespace Gathering

open DenseArray (lengths)

variable {α : Type} [Scalar α] {f : Gathering} {w : Workspace α} {a ids : Tensor}
  {parts : List Tensor} {axis : Nat}

/-- The arguments go together, and there is room for the result. -/
def Accepts (w : Workspace α) : Gathering → Prop
  | reshape a target => target.addressable = true ∧ (w.value a).extents.size = target.size
  | permute a axes => axes.Perm (List.range (w.value a).extents.length)
  | select a axis index =>
    axis < (w.value a).extents.length ∧ index < (w.value a).extents.getD axis 0
  | slice a start stop =>
    (w.value a).extents ≠ [] ∧ start ≤ stop ∧ stop ≤ (w.value a).extents.getLastD 0
  | embedding ids table => ∃ rows width, (w.value table).extents = [rows, width] ∧
    (∀ l, (w.value ids).extents.Contains l →
      ∃ c < rows, Scalar.toNat? ((w.value ids).get l) = some c) ∧
    Extents.addressable ((w.value ids).extents ++ [width]) = true
  | concat parts axis => parts ≠ [] ∧ ∃ off : Extents, axis ≤ off.length ∧
    (∀ t ∈ parts, ∃ n, (w.value t).extents = off.insertIdx axis n) ∧
    Extents.addressable (off.insertIdx axis (lengths axis (parts.map w.value)).sum) = true
  | stack parts axis => parts ≠ [] ∧ ∃ off : Extents, axis ≤ off.length ∧
    (∀ t ∈ parts, (w.value t).extents = off) ∧
    Extents.addressable (off.insertIdx axis parts.length) = true

/-- A rearrangement succeeds if its plan can be made. -/
theorem exists_rearrange_iff (plan : Extents → Except Error Rearrangement) :
    (∃ y w', a.rearrange plan w = (.ok y, w')) ↔ ∃ r, plan (w.value a).extents = .ok r := by
  constructor
  · rintro ⟨y, w', h⟩
    obtain ⟨r, hr, -⟩ := rearrange_ok plan h
    exact ⟨r, hr⟩
  · rintro ⟨r, hr⟩
    obtain ⟨y, w', h, -⟩ := exists_rearrange plan hr
    exact ⟨y, w', h⟩

theorem exists_slice_iff {s : Extents} {start stop : Nat} :
    (∃ r, Rearrangement.slice s start stop = .ok r) ↔
      s ≠ [] ∧ start ≤ stop ∧ stop ≤ s.getLastD 0 := by
  rcases List.eq_nil_or_concat' s with rfl | ⟨s, n, rfl⟩
  · simp [Rearrangement.slice]
  · simp only [Rearrangement.slice_eq_ok_iff, List.getLastD_concat, exists_and_left, exists_eq,
      and_true, ne_eq, List.append_eq_nil_iff, List.cons_ne_nil, and_false, not_false_eq_true,
      true_and]

/-- Every number names a row if a row is named at every index. -/
theorem exists_chosen_iff {x : DenseArray α} {rows : Nat} :
    (∃ chosen, x.toList.mapM (Tensor.rowId rows) = .ok chosen) ↔
      ∀ l, x.extents.Contains l → ∃ c < rows, Scalar.toNat? (x.get l) = some c := by
  constructor
  · rintro ⟨chosen, hchosen⟩ l hl
    obtain ⟨hnamed, hlt⟩ := Rearrangement.rowId_eq_ok.mp (DenseArray.rowId_of_chosen hchosen hl)
    exact ⟨_, hlt, hnamed⟩
  · intro h
    simp only [mapM_eq_ok_iff]
    refine exists_forall₂.mpr fun a ha => ?_
    obtain ⟨k, hk, rfl⟩ := List.getElem_of_mem ha
    have hsize : k < x.extents.size := by
      rwa [DenseArray.toList, Array.length_toList, x.size_eq] at hk
    obtain ⟨c, hlt, hnamed⟩ := h _ (Extents.contains_unravel hsize)
    rw [← DenseArray.entry_eq_get hsize] at hnamed
    refine ⟨c, Rearrangement.rowId_eq_ok.mpr ⟨?_, hlt⟩⟩
    rw [← hnamed]
    simp [DenseArray.entry, DenseArray.toList, x.size_eq, hsize]

theorem exists_embedding_iff : (∃ y w', ids.embedding a w = (.ok y, w')) ↔
    (embedding ids a).Accepts w := by
  constructor
  · rintro ⟨y, w', h⟩
    obtain ⟨rows, width, chosen, r, hshape, hchosen, hr, -⟩ := embedding_ok h
    exact ⟨rows, width, hshape, exists_chosen_iff.mp ⟨chosen, hchosen⟩,
      (Rearrangement.rows_eq_ok_iff.mp hr).1⟩
  · rintro ⟨rows, width, hshape, hnamed, hroom⟩
    obtain ⟨chosen, hchosen⟩ := exists_chosen_iff.mpr hnamed
    have hr : Rearrangement.rows chosen.toArray (w.value ids).extents width = .ok _ :=
      Rearrangement.rows_eq_ok_iff.mpr ⟨hroom, rfl⟩
    unfold Tensor.embedding
    rw [Run.bind_of_ok (Run.value_apply a w)]
    simp only [hshape]
    rw [Run.bind_of_ok (Run.value_apply ids w), hchosen,
      Run.bind_of_ok (Run.check_apply (.ok chosen) w), hr]
    exact ⟨_, _, Run.record_apply _ _ w⟩

theorem exists_concat_iff : (∃ y w', Tensor.concat parts axis w = (.ok y, w')) ↔
    (concat parts axis).Accepts w := by
  constructor
  · rintro ⟨y, w', h⟩
    obtain ⟨data, hdata, -⟩ := concat_ok h
    obtain ⟨off, hjoined, hroom⟩ := DenseArray.joined_of_concat hdata
    exact ⟨concat_parts_ne hdata, off, hjoined.axis_le,
      fun t ht => ⟨_, hjoined.part _ (List.mem_map_of_mem ht)⟩, hjoined.extents ▸ hroom⟩
  · rintro ⟨hne, off, haxis, hparts, hroom⟩
    have hparts : ∀ x ∈ parts.map w.value,
        x.extents = off.insertIdx axis (x.extents.getD axis 0) := by
      refine List.forall_mem_map.mpr fun t ht => ?_
      obtain ⟨n, hn⟩ := hparts t ht
      rw [hn, DenseArray.getD_insertIdx n haxis]
    obtain ⟨data, hdata, -⟩ := DenseArray.concat_of_parts (by simpa using hne) haxis hparts hroom
    obtain ⟨t, w', h, -⟩ := exists_concat hdata
    exact ⟨t, w', h⟩

theorem exists_stack_iff (hheld : ∀ t ∈ parts, w.holds t = true) :
    (∃ y w', Tensor.stack parts axis w = (.ok y, w')) ↔ (stack parts axis).Accepts w := by
  constructor
  · rintro ⟨y, w', h⟩
    obtain ⟨raised, w₁, data, off, hraised, hne, hjoined, hroom, -⟩ := stack_ok hheld h
    rw [hjoined.extents, hraised.lengths_eq, List.sum_replicate_nat, Nat.mul_one] at hroom
    refine ⟨hne, off, hjoined.axis_le, fun t ht => ?_, hroom⟩
    obtain ⟨p, hp⟩ := List.getElem?_of_mem ht
    exact hraised.extents_eq hjoined hp
  · rintro ⟨hne, off, haxis, hparts, hroom⟩
    have hmodels : w.Models (parts.map fun t => (t, off)) :=
      List.forall_mem_map.mpr fun t ht =>
        Workspace.extents?_eq_some.mpr ⟨hheld t ht, hparts t ht⟩
    obtain ⟨t, -, h, -⟩ := Run.Makes.stack hne (fun t ht => List.mem_map_of_mem ht) haxis
      (Extents.addressable_insertIdx parts.length haxis ▸ hroom) w hmodels
    exact ⟨t, _, Run.eq_of_fst h⟩

/-- A run succeeds exactly if the operation accepts its arguments. -/
theorem exists_run_iff (hheld : ∀ t ∈ f.operands, w.holds t = true) :
    (∃ y w', f.run w = (.ok y, w')) ↔ f.Accepts w := by
  cases f with
  | reshape a target =>
    refine (exists_rearrange_iff (Rearrangement.regroup · target)).trans ?_
    simp only [Rearrangement.regroup_eq_ok_iff, exists_and_left, exists_eq, and_true]
    rfl
  | permute a axes =>
    refine (exists_rearrange_iff (Rearrangement.permute · axes)).trans ?_
    simp only [Rearrangement.permute_eq_ok_iff, exists_and_left, exists_eq, and_true]
    rfl
  | select a axis index =>
    refine (exists_rearrange_iff (Rearrangement.select · axis index)).trans ?_
    simp only [Rearrangement.select_eq_ok_iff, exists_and_left, exists_eq, and_true]
    rfl
  | slice a start stop =>
    exact (exists_rearrange_iff (Rearrangement.slice · start stop)).trans exists_slice_iff
  | embedding ids table => exact exists_embedding_iff
  | concat parts axis => exact exists_concat_iff
  | stack parts axis => exact exists_stack_iff hheld

end Gathering

end NeuralNet
