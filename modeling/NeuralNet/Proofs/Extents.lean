import NeuralNet.DenseArray.Basic

/-!
# Sizes that are checked for overflow

Products are taken from the outermost axis on. An axis without extent makes all products behind it
vanish, but none in front of it. Values are laid out as an array if there are as many as the extents
ask for and the array can be addressed.
-/

namespace NeuralNet

namespace Extents

variable {s : Extents} {a b n w : Nat}

/-- No product on the way through the extents has more than 64 bits. -/
def Fits (s : Extents) : Prop := ∀ p, p <+: s → size p < 0x10000000000000000

theorem checkedMul_eq_some :
    checkedMul a b = some n ↔ a * b < 0x10000000000000000 ∧ n = a * b := by
  unfold checkedMul
  by_cases h : a * b < 0x10000000000000000
  · simp [h, eq_comm]
  · simp [h]

theorem foldlM_checkedMul (ha : a < 0x10000000000000000) :
    s.foldlM checkedMul a = some n ↔
      (∀ p, p <+: s → a * size p < 0x10000000000000000) ∧ n = a * size s := by
  induction s generalizing a with
  | nil => simp [size, ha, eq_comm]
  | cons x s ih =>
    rw [List.foldlM_cons]
    constructor
    · intro h
      obtain ⟨b, hb, h⟩ := Option.bind_eq_some_iff.mp h
      obtain ⟨hlt, rfl⟩ := checkedMul_eq_some.mp hb
      obtain ⟨hall, rfl⟩ := (ih hlt).mp h
      refine ⟨fun p hp => ?_, by rw [size, Nat.mul_assoc]⟩
      rcases List.prefix_cons_iff.mp hp with rfl | ⟨t, rfl, ht⟩
      · simpa [size] using ha
      · simpa [size, Nat.mul_assoc] using hall t ht
    · rintro ⟨hall, rfl⟩
      have hlt : a * x < 0x10000000000000000 := by
        simpa [size] using hall [x] (List.prefix_append [x] s)
      refine Option.bind_eq_some_iff.mpr ⟨a * x, checkedMul_eq_some.mpr ⟨hlt, rfl⟩, ?_⟩
      refine (ih hlt).mpr ⟨fun t ht => ?_, by rw [size, Nat.mul_assoc]⟩
      simpa [size, Nat.mul_assoc] using hall (x :: t) ((List.prefix_cons_inj x).mpr ht)

theorem checkedSize?_eq_some : s.checkedSize? = some n ↔ s.Fits ∧ n = s.size := by
  rw [checkedSize?, foldlM_checkedMul (by decide)]
  simp only [Nat.one_mul, Fits]

/-- The width of an element counts as an innermost axis. -/
theorem checkedSize?_bind (s : Extents) (w : Nat) :
    s.checkedSize?.bind (checkedMul · w) = checkedSize? (s ++ [w]) := by
  simp [checkedSize?, List.foldlM_append]

theorem size_append_one (s : Extents) (w : Nat) : size (s ++ [w]) = size s * w := by
  rw [size_append]
  simp [size]

theorem size_pos (h : ∀ m ∈ s, m ≠ 0) : 0 < size s := by
  induction s with
  | nil => decide
  | cons m s ih =>
    obtain ⟨hm, h⟩ := List.forall_mem_cons.mp h
    exact Nat.mul_pos (Nat.pos_of_ne_zero hm) (ih h)

theorem le_size (h : ∀ m ∈ s, m ≠ 0) (hn : n ∈ s) : n ≤ size s := by
  induction s with
  | nil => cases hn
  | cons m s ih =>
    obtain ⟨hm, hs⟩ := List.forall_mem_cons.mp h
    rw [size]
    rcases List.mem_cons.mp hn with rfl | hn
    · exact Nat.le_mul_of_pos_right n (size_pos hs)
    · exact Nat.le_trans (ih hs hn) (Nat.le_mul_of_pos_left _ (Nat.pos_of_ne_zero hm))

/-- An array that can be addressed has no extent of more than 63 bits. -/
theorem lt_of_addressable (h : s.addressable = true) (hn : n ∈ s) : n < 0x8000000000000000 := by
  by_cases hzero : n = 0
  · omega
  · have hmem : n ∈ s.filter (· ≠ 0) := List.mem_filter.mpr ⟨hn, by simpa using hzero⟩
    have hle := le_size (fun m hm => by simpa using (List.mem_filter.mp hm).2) hmem
    exact Nat.lt_of_le_of_lt hle (by simpa [addressable] using h)

end Extents

theorem DenseArray.ofList_eq_ok {α : Type} {s : Extents} {values : List α}
    {data : DenseArray α} :
    DenseArray.ofList s values = .ok data ↔
      s.addressable = true ∧ data.extents = s ∧ data.toList = values := by
  unfold DenseArray.ofList
  constructor
  · intro h
    split at h
    · cases h
    · rename_i haddressable
      split at h
      · cases h
        exact ⟨by simpa using haddressable, rfl, rfl⟩
      · split at h <;> cases h
  · rintro ⟨haddressable, rfl, rfl⟩
    have hlen : data.toList.length = data.extents.size := by
      rw [DenseArray.toList, Array.length_toList, data.size_eq]
    rw [haddressable, dif_pos hlen]
    rfl

end NeuralNet
