import NeuralNet.DenseArray.Broadcast
import NeuralNet.Proofs.Number.Exact

/-!
# Arrays entry by entry

An array is its extents and its entries, of which those past the end are 0.
-/

namespace NeuralNet

namespace DenseArray

variable {α β : Type}

section Entries

variable [Zero α] [Zero β]

theorem entry_of_le {a : DenseArray α} {k : Nat} (h : a.extents.size ≤ k) : a.entry k = 0 := by
  rw [entry, Array.getElem?_eq_none (by rw [a.size_eq]; exact h)]
  rfl

theorem ext_entry {a b : DenseArray α} (hextents : a.extents = b.extents)
    (hentry : ∀ k, a.entry k = b.entry k) : a = b := by
  obtain ⟨s, x, hx⟩ := a
  obtain ⟨t, y, hy⟩ := b
  obtain rfl : s = t := hextents
  have hsize : x.size = y.size := hx.trans hy.symm
  have hvalues : x = y := by
    refine Array.ext hsize fun k hk hk' => ?_
    have hentry := hentry k
    rwa [entry, entry, Array.getElem?_eq_getElem hk, Array.getElem?_eq_getElem hk'] at hentry
  subst hvalues
  rfl

theorem entry_ofFn (s : Extents) (f : Fin s.size → α) (h : (Array.ofFn f).size = s.size) (k : Nat) :
    entry ⟨s, Array.ofFn f, h⟩ k = if hk : k < s.size then f ⟨k, hk⟩ else 0 := by
  simp only [entry, Array.getElem?_ofFn]
  split <;> rfl

theorem entry_generate (s : Extents) (f : List Nat → α) (k : Nat) :
    (generate s f).entry k = if k < s.size then f (s.unravel k) else 0 := by
  rw [generate, entry_ofFn]
  simp

theorem entry_zipWith {γ : Type} [Zero γ] (f : α → β → γ) (a : DenseArray α) (b : DenseArray β)
    (k : Nat) :
    (a.zipWith f b).entry k = if k < a.extents.size then f (a.entry k) (b.entry k) else 0 := by
  rw [zipWith, entry_ofFn]
  simp

theorem entry_map (f : α → β) (a : DenseArray α) (k : Nat) :
    (a.map f).entry k = if k < a.extents.size then f (a.entry k) else 0 := by
  simp only [entry, map, Array.getElem?_map]
  split
  · rename_i h
    rw [← a.size_eq] at h
    simp [h]
  · rename_i h
    rw [← a.size_eq] at h
    simp [Array.getElem?_eq_none (Nat.not_lt.mp h)]

theorem entry_full (s : Extents) (x : α) (k : Nat) :
    (full s x).entry k = if k < s.size then x else 0 := by
  simp only [entry, full, Array.getElem?_replicate]
  split <;> rfl

end Entries

section Collect

variable [AddCommMonoid α]

theorem getD_modify_add (x : Array α) (i k : Nat) (v : α) : (x.modify i (· + v))[k]?.getD 0 =
    x[k]?.getD 0 + if i = k ∧ k < x.size then v else 0 := by
  rw [Array.getElem?_modify]
  by_cases hk : k < x.size
  · by_cases hi : i = k <;> simp [hi, hk]
  · simp [hk]

/-- What every step adds to an entry is added altogether. -/
theorem getD_foldl {n k : Nat} {f : Nat → α}
    {step : { v : Array α // v.size = n } → Nat → { v : Array α // v.size = n }}
    (hstep : ∀ acc j, (step acc j).1[k]?.getD 0 = acc.1[k]?.getD 0 + f j) (js : List Nat)
    (acc : { v : Array α // v.size = n }) :
    (js.foldl step acc).1[k]?.getD 0 = acc.1[k]?.getD 0 + (js.map f).sum := by
  induction js generalizing acc with
  | nil => simp
  | cons j js ih => rw [List.foldl_cons, ih, hstep, List.map_cons, List.sum_cons, add_assoc]

/-- An entry of what was collected is the sum of the terms that were placed there. -/
theorem entry_collect (s : Extents) (count : Nat) (place : Nat → Option (List Nat)) (term : Nat → α)
    (k : Nat) : (collect s count place term).entry k =
      if k < s.size then ((List.range count).map fun j =>
        if (place j).map s.ravel = some k then term j else 0).sum else 0 := by
  by_cases hk : k < s.size
  · rw [if_pos hk, collect, entry]
    -- the sum is taken from what is there already, which is 0 at first
    refine (getD_foldl (f := fun j => if (place j).map s.ravel = some k then term j else 0) ?_
      (List.range count) ⟨Array.replicate s.size 0, by simp⟩).trans ?_
    · intro acc j
      cases hj : place j with
      | none => rw [Option.map_none, if_neg (Option.some_ne_none k).symm, add_zero]
      | some i =>
        simp only [getD_modify_add, acc.2, hk, and_true, Option.map_some, Option.some.injEq]
    · simp [hk]
  · rw [if_neg hk]
    exact entry_of_le (Nat.not_lt.mp hk)

end Collect

end DenseArray

end NeuralNet
