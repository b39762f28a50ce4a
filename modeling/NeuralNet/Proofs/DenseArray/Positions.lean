import Mathlib.Data.List.GetD
import Mathlib.Tactic.Ring
import NeuralNet.Proofs.DenseArray.Entries
import NeuralNet.Proofs.Extents

/-!
# Indices and positions

Which indices arrays have, axis by axis from either end, and where they stand in row-major order.
-/

namespace NeuralNet

namespace Extents

variable {s : Extents} {i l : List Nat} {n j k axis t : Nat}

theorem length_of_contains (h : s.Contains i) : i.length = s.length := by
  induction s generalizing i with
  | nil =>
    cases i with
    | nil => rfl
    | cons j i => cases h
  | cons n s ih =>
    cases i with
    | nil => cases h
    | cons j i => exact congrArg (· + 1) (ih h.2)

theorem contains_cons : Contains (n :: s) (j :: i) ↔ j < n ∧ s.Contains i := Iff.rfl

theorem exists_of_contains_cons (h : Contains (n :: s) i) :
    ∃ j l, i = j :: l ∧ j < n ∧ s.Contains l := by
  cases i with
  | nil => cases h
  | cons j l => exact ⟨j, l, rfl, h.1, h.2⟩

theorem contains_concat : Contains (s ++ [n]) (l ++ [j]) ↔ s.Contains l ∧ j < n := by
  induction s generalizing l with
  | nil =>
    cases l with
    | nil => simp [Contains]
    | cons k l => cases l <;> simp [Contains]
  | cons m s ih =>
    cases l with
    | nil => cases s <;> simp [Contains]
    | cons k l =>
      rw [List.cons_append, List.cons_append, contains_cons, contains_cons, ih, and_assoc]

theorem exists_of_contains_concat (h : Contains (s ++ [n]) i) :
    ∃ l j, i = l ++ [j] ∧ s.Contains l ∧ j < n := by
  have hne : i ≠ [] := by
    rintro rfl
    have hlen := length_of_contains h
    simp at hlen
  have hi := List.dropLast_append_getLast hne
  rw [← hi] at h
  exact ⟨_, _, hi.symm, contains_concat.mp h⟩

theorem ravel_concat (h : l.length = s.length) :
    ravel (s ++ [n]) (l ++ [j]) = ravel s l * n + j := by
  induction s generalizing l with
  | nil =>
    obtain rfl := List.length_eq_zero_iff.mp h
    simp [ravel, size]
  | cons m s ih =>
    cases l with
    | nil => cases h
    | cons k l =>
      rw [List.cons_append, List.cons_append, ravel, ravel, ih (Nat.succ.inj h), size_append]
      simp only [size, Nat.mul_one]
      ring

/-- The last axis is counted fastest. -/
theorem unravel_concat {p : Nat} (h : p < size (s ++ [n])) :
    unravel (s ++ [n]) p = unravel s (p / n) ++ [p % n] := by
  induction s generalizing p with
  | nil =>
    have h : p < n := by simpa [size] using h
    simp [unravel, size, Nat.mod_eq_of_lt h]
  | cons m s ih =>
    have hpos : 0 < size (s ++ [n]) := by
      rw [List.cons_append, size] at h
      exact Nat.pos_of_mul_pos_left (Nat.zero_lt_of_lt h)
    rw [List.cons_append, unravel, unravel, ih (Nat.mod_lt p hpos), size_append_one, List.cons_append,
      Nat.mul_comm, ← Nat.div_div_eq_div_mul, Nat.mod_mul_right_div_self, Nat.mod_mul_right_mod]

theorem contains_insertIdx (haxis : axis ≤ s.length) (h : s.Contains i) (ht : t < n) :
    Contains (s.insertIdx axis n) (i.insertIdx axis t) := by
  induction axis generalizing s i with
  | zero => exact ⟨ht, h⟩
  | succ axis ih =>
    cases s with
    | nil => cases haxis
    | cons m s =>
      obtain ⟨j, l, rfl, hj, hl⟩ := exists_of_contains_cons h
      exact ⟨hj, ih (Nat.le_of_succ_le_succ haxis) hl⟩

theorem contains_iff_getD :
    s.Contains i ↔ i.length = s.length ∧ ∀ k < s.length, i.getD k 0 < s.getD k 0 := by
  induction s generalizing i with
  | nil => cases i <;> simp [Contains]
  | cons n s ih =>
    cases i with
    | nil => simp [Contains]
    | cons j i =>
      rw [contains_cons, ih, List.length_cons, List.length_cons, Nat.succ_inj]
      constructor
      · rintro ⟨hj, hlen, h⟩
        refine ⟨hlen, fun k hk => ?_⟩
        cases k with
        | zero => exact hj
        | succ k => exact h k (Nat.lt_of_succ_lt_succ hk)
      · rintro ⟨hlen, h⟩
        exact ⟨h 0 (Nat.succ_pos _), hlen, fun k hk => h (k + 1) (Nat.succ_lt_succ hk)⟩

/-- An index is one along an axis and one of the other axes. -/
theorem exists_of_contains_insertIdx (haxis : axis ≤ s.length)
    (h : Contains (s.insertIdx axis n) i) :
    ∃ l k, i = l.insertIdx axis k ∧ s.Contains l ∧ k < n := by
  induction axis generalizing s i with
  | zero =>
    obtain ⟨k, l, rfl, hk, hl⟩ := exists_of_contains_cons h
    exact ⟨l, k, rfl, hl, hk⟩
  | succ axis ih =>
    cases s with
    | nil => cases haxis
    | cons m s =>
      obtain ⟨j, i, rfl, hj, hi⟩ := exists_of_contains_cons h
      obtain ⟨l, k, rfl, hl, hk⟩ := ih (Nat.le_of_succ_le_succ haxis) hi
      exact ⟨j :: l, k, rfl, ⟨hj, hl⟩, hk⟩

theorem insertIdx_eraseIdx (haxis : axis < s.length) :
    (s.eraseIdx axis).insertIdx axis (s.getD axis 0) = s := by
  rw [List.getD_eq_getElem _ _ haxis, List.insertIdx_eraseIdx_getElem]

theorem project_self (h : s.Contains i) : s.project i = i := by
  have hdrop : i.drop (i.length - s.length) = i := by
    rw [length_of_contains h, Nat.sub_self, List.drop_zero]
  rw [project, hdrop]
  induction s generalizing i with
  | nil =>
    cases i with
    | nil => rfl
    | cons j i => cases h
  | cons n s ih =>
    obtain ⟨j, l, rfl, hj, hl⟩ := exists_of_contains_cons h
    have hdrop' : l.drop (l.length - s.length) = l := by
      rw [length_of_contains hl, Nat.sub_self, List.drop_zero]
    rw [List.zipWith_cons_cons, ih hl hdrop']
    by_cases hn : n = 1
    · subst hn
      rw [if_pos rfl, Nat.lt_one_iff.mp hj]
    · rw [if_neg hn]

/-- Axes in front of those of an operand make no difference to where it is read. -/
theorem project_cons (h : s.length ≤ i.length) : s.project (j :: i) = s.project i := by
  have hdrop : (j :: i).length - s.length = i.length - s.length + 1 := by
    rw [List.length_cons]
    omega
  rw [project, project, hdrop, List.drop_succ_cons]

/-- Where a vector is read that is combined with every row. -/
theorem project_last (l : List Nat) {j m : Nat} (hj : j < m) :
    Extents.project [m] (l ++ [j]) = [j] := by
  induction l with
  | nil => exact Extents.project_self (s := [m]) ⟨hj, trivial⟩
  | cons n l ih => rw [List.cons_append, Extents.project_cons (by simp), ih]

end Extents

namespace DenseArray

variable {α β : Type} [Zero α] [Zero β] {a b : DenseArray α} {s : Extents} {i l : List Nat}
  {n k j : Nat}

theorem entry_eq_get {p : Nat} (h : p < a.extents.size) :
    a.entry p = a.get (a.extents.unravel p) := by
  rw [get, Extents.ravel_unravel h]

theorem ext_get (hextents : a.extents = b.extents)
    (h : ∀ i, a.extents.Contains i → a.get i = b.get i) : a = b := by
  refine ext_entry hextents fun p => ?_
  by_cases hp : p < a.extents.size
  · rw [entry_eq_get hp, h _ (Extents.contains_unravel hp), hextents,
      ← entry_eq_get (hextents ▸ hp)]
  · have hp := Nat.not_lt.mp hp
    rw [entry_of_le hp, entry_of_le (hextents ▸ hp)]

theorem get_map (f : α → β) (h : a.extents.Contains i) : (a.map f).get i = f (a.get i) := by
  rw [get, extents_map, entry_map, if_pos (Extents.ravel_lt_size h), get]

theorem get_zipWith {γ : Type} [Zero γ] {b : DenseArray β} (f : α → β → γ) (ha : a.extents = s)
    (hb : b.extents = s) (hi : s.Contains i) : (a.zipWith f b).get i = f (a.get i) (b.get i) := by
  have hextents : (a.zipWith f b).extents = s := ha
  rw [get, hextents, entry_zipWith, ha, if_pos (Extents.ravel_lt_size hi), get, get, ha, hb]

theorem get_full (x : α) (h : s.Contains i) : (full s x).get i = x := by
  have hextents : (full s x).extents = s := rfl
  rw [get, hextents, entry_full, if_pos (Extents.ravel_lt_size h)]

theorem get_broadcastWith {γ : Type} [Zero γ] (f : α → β → γ) (a : DenseArray α)
    (b : DenseArray β) (h : s.Contains i) :
    (broadcastWith s f a b).get i = f (a.get (a.extents.project i)) (b.get (b.extents.project i)) :=
  get_generate h _

theorem get_relaid {t : Extents} (h : t.Contains i) : (a.relaid t).get i = a.entry (t.ravel i) :=
  get_generate h _

/-- The entry at a position of other extents is the one at the same position of its own. -/
theorem get_relaid_eq {t : Extents} {i' : List Nat} (h : t.Contains i)
    (hpos : t.ravel i = a.extents.ravel i') : (a.relaid t).get i = a.get i' := by
  rw [get_relaid h, hpos, get]

theorem get_concat (ha : a.extents = s ++ [k]) (hl : s.Contains l) :
    a.get (l ++ [j]) = a.entry (s.ravel l * k + j) := by
  rw [get, ha, Extents.ravel_concat (Extents.length_of_contains hl)]

theorem get_pair (h : a.extents = [k, n]) (j t : Nat) : a.get [j, t] = a.entry (j * n + t) := by
  simp [get, h, Extents.ravel, Extents.size]

theorem sumUpTo_congr [Add α] {f g : Nat → α} (h : ∀ j < n, f j = g j) :
    Scalar.sumUpTo n f = Scalar.sumUpTo n g := by
  induction n with
  | zero => rfl
  | succ n ih =>
    rw [Scalar.sumUpTo, Scalar.sumUpTo, ih fun j hj => h j (Nat.lt_succ_of_lt hj),
      h n n.lt_succ_self]

end DenseArray

end NeuralNet
