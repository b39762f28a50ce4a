import NeuralNet.Proofs.DenseArray.Gather

/-!
# Summing back

A gradient is summed back to an operand one axis at a time. Whether this comes to an end depends on the
extents only; every entry of what it ends with is the sum of the entries of the gradient at the
indices where the operand was read.

* `DenseArray.sumUnits_ends`: which axes can be summed along, and the extents that are left;
* `DenseArray.Collapses`: an array whose entries are sums over all indices that a map sends to them;
* `DenseArray.collapses_reduceTo`: a gradient collapses to an operand along the indices that the
  operand is read at.
-/

namespace NeuralNet

open Finset (range)

namespace Extents

variable {pre s target : Extents} {n t : Nat}

/-- Every axis of the target has the extent that this axis has, or extent 1 where this one has more. -/
def Reduces (target s : Extents) : Prop := List.Forall₂ (fun t n => t = 1 ∧ 1 < n ∨ t = n) target s

theorem eraseIdx_prefix (pre : Extents) (n : Nat) (s : Extents) :
    (pre ++ n :: s).eraseIdx pre.length = pre ++ s := by
  rw [List.eraseIdx_append_of_length_le (Nat.le_refl _), Nat.sub_self]
  rfl

theorem insertIdx_prefix (pre : Extents) (n : Nat) (s : Extents) :
    (pre ++ s).insertIdx pre.length n = pre ++ n :: s := by
  induction pre with
  | nil => rfl
  | cons m pre ih => exact congrArg (m :: ·) ih

/-- An index with a prefix of the axes that are done. -/
theorem exists_of_contains_prefix {i : List Nat} (h : Contains (pre ++ n :: s) i) :
    ∃ l j m, i = l ++ j :: m ∧ l.length = pre.length ∧ j < n := by
  have hlen := length_of_contains h
  rw [List.length_append, List.length_cons] at hlen
  have hlt : pre.length < i.length := by omega
  refine ⟨i.take pre.length, i[pre.length], i.drop (pre.length + 1), ?_, by simp; omega, ?_⟩
  · rw [List.getElem_cons_drop, List.take_append_drop]
  · have hget := (contains_iff_getD.mp h).2 pre.length (by simp)
    rw [List.getD_eq_getElem _ _ hlt, List.getD_append_right _ _ _ _ (Nat.le_refl _),
      Nat.sub_self, List.getD_cons_zero] at hget
    exact hget

/-- Where an operand is read, on the axes behind the first `done`. -/
def projectBehind (done : Nat) (target : Extents) (i : List Nat) : List Nat :=
  i.take done ++ target.zipWith (fun n j => if n = 1 then 0 else j) (i.drop done)

variable {l m : List Nat} {j : Nat}

theorem projectBehind_nil {i : List Nat} {done : Nat} (h : i.length = done) :
    projectBehind done [] i = i := by
  rw [projectBehind, List.zipWith_nil_left, List.append_nil, List.take_of_length_le (Nat.le_of_eq h)]

/-- The entry on an axis of extent 1 is 0 from then on. -/
theorem projectBehind_unit (target : Extents) (l m : List Nat) (j : Nat) :
    projectBehind (l.length + 1) target (l ++ 0 :: m) =
      projectBehind l.length (1 :: target) (l ++ j :: m) := by
  simp [projectBehind, List.take_append]

theorem projectBehind_keep (target : Extents) (l m : List Nat) (hj : j < t) :
    projectBehind (l.length + 1) target (l ++ j :: m) =
      projectBehind l.length (t :: target) (l ++ j :: m) := by
  have hkept : (if t = 1 then 0 else j) = j := by
    split
    · omega
    · rfl
  simp [projectBehind, List.take_append, hkept]

end Extents

namespace DenseArray

/-! ## Extents -/

theorem extents_times {α : Type} [Zero α] [Mul α] (g b : DenseArray α) (own : Extents) :
    (g.times b own).extents = g.extents := by
  unfold times
  split <;> rfl

section Extents

variable {α : Type} [Zero α] [Add α] {a : DenseArray α} {pre s target : Extents} {n : Nat}

theorem extents_sumLeading (a : DenseArray α) (n : Nat) :
    (a.sumLeading n).extents = a.extents.drop n := by
  induction n generalizing a with
  | zero => rfl
  | succ n ih =>
    have hextents : (a.sumAxis 0).extents = a.extents.eraseIdx 0 := rfl
    rw [sumLeading, ih, hextents, List.eraseIdx_zero, List.drop_tail]

theorem extents_sumUnit (ha : a.extents = pre ++ n :: s) :
    ((a.sumAxis pre.length).insertAxis pre.length).extents = (pre ++ [1]) ++ s := by
  have hextents : ((a.sumAxis pre.length).insertAxis pre.length).extents =
    (a.extents.eraseIdx pre.length).insertIdx pre.length 1 := rfl
  rw [hextents, ha, Extents.eraseIdx_prefix, Extents.insertIdx_prefix, List.append_assoc]
  rfl

/-- The axes behind `pre` can be summed along if the target reduces them, and are then as in the
target. -/
theorem sumUnits_ends (pre : Extents) (ha : a.extents = pre ++ s)
    (hrank : target.length = s.length) :
    (target.Reduces s ∧ ∃ d, sumUnits target pre.length a = some d ∧ d.extents = pre ++ target) ∨
      (¬target.Reduces s ∧ sumUnits target pre.length a = none) := by
  induction target generalizing a pre s with
  | nil =>
    obtain rfl := List.length_eq_zero_iff.mp hrank.symm
    exact .inl ⟨.nil, a, rfl, ha⟩
  | cons t target ih =>
    cases s with
    | nil => cases hrank
    | cons n s =>
      have hrank := Nat.succ.inj hrank
      have haxis : a.extents[pre.length]? = some n := by
        rw [ha, List.getElem?_append_right (Nat.le_refl _), Nat.sub_self, List.getElem?_cons_zero]
      have hcons : Extents.Reduces (t :: target) (n :: s) ↔
        (t = 1 ∧ 1 < n ∨ t = n) ∧ Extents.Reduces target s := List.forall₂_cons
      rw [hcons, sumUnits, haxis]
      dsimp only
      split
      · rename_i hunit
        have hends := ih _ (extents_sumUnit ha) hrank
        rw [List.length_append, List.append_assoc] at hends
        obtain ⟨rfl, hlt⟩ := hunit
        rwa [and_iff_right (Or.inl ⟨rfl, hlt⟩)]
      · split
        · rename_i heq
          have ha : a.extents = (pre ++ [n]) ++ s := by rw [ha, List.append_assoc]; rfl
          have hends := ih _ ha hrank
          rw [List.length_append, List.append_assoc] at hends
          rwa [and_iff_right (Or.inr heq), heq]
        · rename_i hunit hne
          exact .inr ⟨fun h => h.1.elim hunit hne, rfl⟩

/-- What summing back ends with. -/
theorem reduceTo_ends {g : DenseArray α} (hrank : target.length ≤ g.extents.length)
    (hne : g.extents ≠ target) :
    (target.Reduces (g.extents.drop (g.extents.length - target.length)) ∧
      ∃ d, g.reduceTo target = .ok d ∧ d.extents = target) ∨
    (¬target.Reduces (g.extents.drop (g.extents.length - target.length)) ∧ g.reduceTo target =
      .error (.shapeMismatch "gradient reduction" (.extents target) (.extents g.extents))) := by
  have hdrop : target.length = (g.extents.drop (g.extents.length - target.length)).length := by
    rw [List.length_drop]
    omega
  have hextents := extents_sumLeading g (g.rank - target.length)
  unfold reduceTo
  rw [if_neg hne]
  rcases sumUnits_ends [] hextents hdrop with ⟨hreduces, d, hd, htarget⟩ | ⟨hnot, hnone⟩
  · rw [List.length_nil] at hd
    rw [hd]
    exact .inl ⟨hreduces, d, rfl, htarget⟩
  · rw [List.length_nil] at hnone
    rw [hnone]
    exact .inr ⟨hnot, rfl⟩

end Extents

/-! ## Entries -/

section Collapses

variable {α : Type} {f f' : List Nat → List Nat} {a d e g : DenseArray α}
  {pre s target : Extents} {axis n : Nat}

variable [AddCommMonoid α]

/-- Every entry of `d` is the sum of the entries of `g` whose indices are sent there. -/
structure Collapses (f : List Nat → List Nat) (g d : DenseArray α) : Prop where
  maps : ∀ i, g.extents.Contains i → d.extents.Contains (f i)
  entry : ∀ p, d.extents.Contains p → d.get p = ∑ i ∈ g.extents.box with f i = p, g.get i

theorem Collapses.congr (h : Collapses f g d) (hf : ∀ i, g.extents.Contains i → f i = f' i) :
    Collapses f' g d := by
  refine ⟨fun i hi => hf i hi ▸ h.maps i hi, fun p hp => ?_⟩
  rw [h.entry p hp]
  congr 1
  refine Finset.filter_congr fun i hi => ?_
  rw [hf i (Extents.mem_box.mp hi)]

theorem Collapses.refl (g : DenseArray α) (hf : ∀ i, g.extents.Contains i → f i = i) :
    Collapses f g g := by
  refine ⟨fun i hi => (hf i hi).symm ▸ hi, fun p hp => ?_⟩
  rw [Finset.sum_filter, Finset.sum_eq_single_of_mem p (Extents.mem_box.mpr hp), if_pos (hf p hp)]
  intro i hi hne
  rw [if_neg]
  rwa [hf i (Extents.mem_box.mp hi)]

theorem Collapses.trans (h : Collapses f g e) (h' : Collapses f' e d) :
    Collapses (fun i => f' (f i)) g d := by
  refine ⟨fun i hi => h'.maps _ (h.maps i hi), fun p hp => ?_⟩
  have hmaps : ∀ i ∈ g.extents.box.filter (fun i => f' (f i) = p),
      f i ∈ e.extents.box.filter (fun j => f' j = p) := by
    intro i hi
    obtain ⟨hi, hp⟩ := Finset.mem_filter.mp hi
    exact Finset.mem_filter.mpr ⟨Extents.mem_box.mpr (h.maps i (Extents.mem_box.mp hi)), hp⟩
  rw [h'.entry p hp, ← Finset.sum_fiberwise_of_maps_to hmaps]
  apply Finset.sum_congr rfl
  intro j hj
  obtain ⟨hj, hp⟩ := Finset.mem_filter.mp hj
  rw [h.entry j (Extents.mem_box.mp hj), Finset.filter_filter]
  congr 1
  refine Finset.filter_congr fun i _ => ?_
  constructor
  · rintro rfl
    exact ⟨hp, rfl⟩
  · exact And.right

theorem collapses_insertAxis (haxis : axis ≤ a.extents.length) :
    Collapses (·.insertIdx axis 0) a (a.insertAxis axis) := by
  have hextents : (a.insertAxis axis).extents = a.extents.insertIdx axis 1 := rfl
  refine ⟨fun i hi => Extents.contains_insertIdx haxis hi Nat.one_pos, fun p hp => ?_⟩
  obtain ⟨l, k, rfl, hl, hk⟩ := Extents.exists_of_contains_insertIdx haxis (hextents ▸ hp)
  obtain rfl := Nat.lt_one_iff.mp hk
  have herase (i : List Nat) : (i.insertIdx axis 0).eraseIdx axis = i :=
    List.eraseIdx_insertIdx_self 0
  rw [insertAxis, get_generate (hextents ▸ hp), herase, Finset.sum_filter,
    Finset.sum_eq_single_of_mem l (Extents.mem_box.mpr hl), if_pos rfl]
  intro i _ hne
  rw [if_neg]
  intro h
  exact hne (by rw [← herase i, h, herase l])

theorem collapses_sumAxis (haxis : axis < a.extents.length) :
    Collapses (·.eraseIdx axis) a (a.sumAxis axis) := by
  have hlen : axis ≤ (a.extents.eraseIdx axis).length := by
    rw [List.length_eraseIdx_of_lt haxis]
    omega
  have hsplit := Extents.insertIdx_eraseIdx haxis
  have herase (i : List Nat) (j : Nat) : (i.insertIdx axis j).eraseIdx axis = i :=
    List.eraseIdx_insertIdx_self j
  have hindex : ∀ i, a.extents.Contains i → ∃ (l : List Nat) (k : Nat), i = l.insertIdx axis k ∧
      Extents.Contains (a.extents.eraseIdx axis) l ∧ k < a.extents.getD axis 0 := by
    intro i hi
    rw [← hsplit] at hi
    exact Extents.exists_of_contains_insertIdx hlen hi
  constructor
  · intro i hi
    obtain ⟨l, k, rfl, hl, -⟩ := hindex i hi
    rw [herase]
    exact hl
  · intro p (hp : Extents.Contains (a.extents.eraseIdx axis) p)
    have hrank : axis ≤ p.length := Extents.length_of_contains hp ▸ hlen
    rw [sumAxis, get_generate hp, Scalar.sumUpTo_eq_sum_range]
    -- The indices that are left at `p` are told apart by their entry on the axis.
    refine Finset.sum_nbij' (p.insertIdx axis ·) (·.getD axis 0) ?_ ?_ ?_ ?_ fun _ _ => rfl
    · intro k hk
      have hi := Extents.contains_insertIdx hlen hp (Finset.mem_range.mp hk)
      rw [hsplit] at hi
      exact Finset.mem_filter.mpr ⟨Extents.mem_box.mpr hi, herase p k⟩
    · intro i hi
      obtain ⟨l, k, rfl, hl, hk⟩ := hindex i (Extents.mem_box.mp (Finset.mem_filter.mp hi).1)
      rw [getD_insertIdx k (Extents.length_of_contains hl ▸ hlen)]
      exact Finset.mem_range.mpr hk
    · intro k _
      exact getD_insertIdx k hrank
    · intro i hi
      obtain ⟨hmem, rfl⟩ := Finset.mem_filter.mp hi
      obtain ⟨l, k, rfl, hl, -⟩ := hindex i (Extents.mem_box.mp hmem)
      rw [herase, getD_insertIdx k (Extents.length_of_contains hl ▸ hlen)]

/-- The sum along an axis, on an axis of extent 1 in its place. -/
theorem collapses_sumUnit (haxis : axis < a.extents.length) :
    Collapses (fun i => (i.eraseIdx axis).insertIdx axis 0) a
      ((a.sumAxis axis).insertAxis axis) := by
  have hextents : (a.sumAxis axis).extents = a.extents.eraseIdx axis := rfl
  apply (collapses_sumAxis haxis).trans
  apply collapses_insertAxis
  rw [hextents, List.length_eraseIdx_of_lt haxis]
  omega

theorem collapses_sumLeading (h : n ≤ a.extents.length) :
    Collapses (·.drop n) a (a.sumLeading n) := by
  induction n generalizing a with
  | zero => exact .refl a fun _ _ => rfl
  | succ n ih =>
    have haxis : 0 < a.extents.length := by omega
    have hextents : (a.sumAxis 0).extents = a.extents.eraseIdx 0 := rfl
    have hrest := ih (a := a.sumAxis 0) (by
      rw [hextents, List.length_eraseIdx_of_lt haxis]
      omega)
    refine ((collapses_sumAxis haxis).trans hrest).congr fun i _ => ?_
    rw [List.eraseIdx_zero, List.drop_tail]

theorem collapses_sumUnits (pre : Extents) (ha : a.extents = pre ++ s)
    (hrank : target.length = s.length) (h : sumUnits target pre.length a = some d) :
    Collapses (target.projectBehind pre.length) a d := by
  induction target generalizing a pre s with
  | nil =>
    cases h
    obtain rfl := List.length_eq_zero_iff.mp hrank.symm
    refine .refl _ fun i hi => Extents.projectBehind_nil ?_
    rw [Extents.length_of_contains hi, ha, List.append_nil]
  | cons t target ih =>
    cases s with
    | nil => cases hrank
    | cons n s =>
      have hrest := Nat.succ.inj hrank
      have haxis : a.extents[pre.length]? = some n := by
        rw [ha, List.getElem?_append_right (Nat.le_refl _), Nat.sub_self, List.getElem?_cons_zero]
      rw [sumUnits, haxis] at h
      dsimp only at h
      split at h
      · rename_i hunit
        obtain ⟨rfl, -⟩ := hunit
        have hbehind := ih (pre ++ [1]) (extents_sumUnit ha) hrest (by simpa using h)
        refine ((collapses_sumUnit (by simp [ha])).trans hbehind).congr fun i hi => ?_
        obtain ⟨l, j, m, rfl, hl, -⟩ := Extents.exists_of_contains_prefix (ha ▸ hi)
        rw [← hl, Extents.eraseIdx_prefix, Extents.insertIdx_prefix, List.length_append, ← hl]
        exact Extents.projectBehind_unit target l m j
      · split at h
        · rename_i heq
          subst heq
          have ha' : a.extents = (pre ++ [t]) ++ s := by rw [ha, List.append_assoc]; rfl
          refine (ih (pre ++ [t]) ha' hrest (by simpa using h)).congr fun i hi => ?_
          obtain ⟨l, j, m, rfl, hl, hj⟩ := Extents.exists_of_contains_prefix (ha ▸ hi)
          rw [List.length_append, ← hl]
          exact Extents.projectBehind_keep target l m hj
        · cases h

/-- A gradient is summed at the indices that an operand is read at. -/
theorem collapses_reduceTo (hrank : target.length ≤ g.extents.length)
    (h : g.reduceTo target = .ok d) : d.extents = target ∧ Collapses target.project g d := by
  by_cases hsame : g.extents = target
  · unfold reduceTo at h
    rw [if_pos hsame] at h
    cases h
    exact ⟨hsame, .refl _ fun i hi => Extents.project_self (hsame ▸ hi)⟩
  · obtain ⟨-, d', hd', hextents⟩ | ⟨-, herror⟩ := reduceTo_ends hrank hsame
    · cases h.symm.trans hd'
      refine ⟨hextents, ?_⟩
      unfold reduceTo at h
      rw [if_neg hsame] at h
      split at h
      · rename_i d' hunits
        cases h
        have hdrop := extents_sumLeading g (g.rank - target.length)
        have hlen : target.length = (g.extents.drop (g.rank - target.length)).length := by
          rw [List.length_drop, rank]
          omega
        have hleading := collapses_sumLeading (a := g) (Nat.sub_le g.rank target.length)
        refine (hleading.trans (collapses_sumUnits [] hdrop hlen hunits)).congr ?_
        intro i hi
        rw [Extents.project, Extents.length_of_contains hi]
        rfl
      · cases h
    · cases h.symm.trans herror

end Collapses

/-- The inner product looks up each index that was sent somewhere. -/
theorem Collapses.dot {α : Type} [CommRing α] {f : List Nat → List Nat} {d g : DenseArray α}
    (h : Collapses f g d) (x : DenseArray α) :
    d.dot x = ∑ i ∈ g.extents.box, g.get i * x.get (f i) := by
  have hmaps : ∀ i ∈ g.extents.box, f i ∈ d.extents.box :=
    fun i hi => Extents.mem_box.mpr (h.maps i (Extents.mem_box.mp hi))
  rw [DenseArray.dot, ← Finset.sum_fiberwise_of_maps_to hmaps]
  apply Finset.sum_congr rfl
  intro p hp
  rw [h.entry p (Extents.mem_box.mp hp), Finset.sum_mul]
  apply Finset.sum_congr rfl
  intro i hi
  rw [(Finset.mem_filter.mp hi).2]

end DenseArray

end NeuralNet
