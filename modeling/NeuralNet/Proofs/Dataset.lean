import NeuralNet.Dataset

/-!
# Cutting samples into batches

* `flatten_pieces`, `ne_nil_of_mem_pieces`: enough pieces of a list hold all of it, and with no more
  than it takes none of them is empty;
* `batchesWith_none`: the batches of a data set that is not shuffled.
-/

namespace NeuralNet

variable {α : Type} {width count : Nat} {xs : List α}

theorem flatten_pieces (h : xs.length ≤ count * width) : (pieces width count xs).flatten = xs := by
  induction count generalizing xs with
  | zero =>
    rw [Nat.zero_mul, Nat.le_zero_eq, List.length_eq_zero_iff] at h
    rw [h]
    rfl
  | succ count ih =>
    have hrest : (xs.drop width).length ≤ count * width := by
      rw [List.length_drop, Nat.sub_le_iff_le_add, ← Nat.succ_mul]
      exact h
    rw [pieces, List.flatten_cons, ih hrest, List.take_append_drop]

theorem ne_nil_of_mem_pieces (hwidth : 0 < width) (h : count * width < xs.length + width) :
    ∀ p ∈ pieces width count xs, p ≠ [] := by
  induction count generalizing xs with
  | zero =>
    intro p hp
    cases hp
  | succ count ih =>
    rw [Nat.succ_mul] at h
    have hpos : 0 < xs.length := by omega
    rw [pieces]
    refine List.forall_mem_cons.mpr ⟨fun hnil => ?_, fun p hp => ?_⟩
    · rcases List.take_eq_nil_iff.mp hnil with hzero | rfl
      · exact Nat.ne_of_gt hwidth hzero
      · exact Nat.lt_irrefl 0 hpos
    · by_cases hlast : count = 0
      · subst hlast
        cases hp
      · -- another piece is left, so this one is full
        have hfull : width ≤ count * width :=
          Nat.le_mul_of_pos_left width (Nat.pos_of_ne_zero hlast)
        refine ih ?_ p hp
        rw [List.length_drop]
        omega

section

variable {n : Nat} {p : List Nat} {ps : List (List Nat)}

theorem bounds_of_flatten (h : ps.flatten = List.range n) (hp : p ∈ ps) :
    (∀ j ∈ p, j < n) ∧ p.length ≤ n := by
  have hsub : p.Sublist (List.range n) := h ▸ List.sublist_flatten_of_mem hp
  have hlen := hsub.length_le
  rw [List.length_range] at hlen
  exact ⟨fun j hj => List.mem_range.mp (hsub.subset hj), hlen⟩

theorem ne_nil_iff_of_flatten (h : ps.flatten = List.range n) (hne : ∀ p ∈ ps, p ≠ []) :
    ps ≠ [] ↔ n ≠ 0 := by
  have hnil : ps = [] ↔ List.range n = [] := by
    rw [← h, List.flatten_eq_nil_iff]
    constructor
    · rintro rfl p hp
      cases hp
    · exact fun hall => List.eq_nil_iff_forall_not_mem.mpr fun p hp => hne p hp (hall p hp)
  rw [ne_eq, hnil, List.range_eq_nil]

end

theorem length_le_of_mem_pieces : ∀ p ∈ pieces width count xs, p.length ≤ width := by
  induction count generalizing xs with
  | zero =>
    intro p hp
    cases hp
  | succ count ih =>
    rw [pieces]
    exact List.forall_mem_cons.mpr ⟨List.length_take_le width xs, ih⟩

namespace Dataset

theorem pieceCount_bounds (hwidth : 0 < width) (n : Nat) :
    n ≤ pieceCount width n * width ∧ pieceCount width n * width < n + width := by
  have hrest := Nat.div_add_mod' (n + width - 1) width
  have hlt := Nat.mod_lt (n + width - 1) hwidth
  unfold pieceCount
  omega

variable (d : Dataset α)

theorem extents_data : d.data.extents = d.size :: d.data.extents.tail := by
  obtain ⟨tail, htail⟩ := List.head?_eq_some_iff.mp d.data_size
  rw [htail, List.tail_cons]

theorem extents_labels : d.labels.extents = d.size :: d.labels.extents.tail := by
  obtain ⟨tail, htail⟩ := List.head?_eq_some_iff.mp d.labels_size
  rw [htail, List.tail_cons]

theorem size_eq_of_data {d d' : Dataset α} (h : d'.data = d.data) : d'.size = d.size := by
  have hsize := d'.data_size
  rw [h, d.data_size] at hsize
  exact (Option.some.inj hsize).symm

variable [Zero α]

/-- The samples at these positions with their labels. -/
def batch (positions : List Nat) : Batch α :=
  ⟨d.data.selectFirst positions, d.labels.selectFirst positions⟩

theorem batchesWith_eq {width : Nat} (hwidth : 0 < width) (seed : Option Nat) (epoch : Nat) :
    d.batchesWith width seed epoch =
      (pieces width (pieceCount width d.size) (d.order seed epoch)).map d.batch := by
  unfold batchesWith
  rw [Nat.max_eq_left hwidth]
  rfl

/-- The batches are the samples as they come, so many at a time. -/
theorem batchesWith_none (epoch : Nat) :
    ∃ ps : List (List Nat), ps.flatten = List.range d.size ∧
      (∀ p ∈ ps, p ≠ [] ∧ p.length ≤ d.batchSize) ∧
      d.batchesWith d.batchSize none epoch = ps.map d.batch := by
  obtain ⟨hall, hnone⟩ := pieceCount_bounds d.batchSize_pos d.size
  refine ⟨pieces d.batchSize (pieceCount d.batchSize d.size) (List.range d.size),
    flatten_pieces ?_, fun p hp => ⟨?_, length_le_of_mem_pieces p hp⟩,
    d.batchesWith_eq d.batchSize_pos none epoch⟩
  · rwa [List.length_range]
  · refine ne_nil_of_mem_pieces d.batchSize_pos ?_ p hp
    rwa [List.length_range]

end Dataset

end NeuralNet
