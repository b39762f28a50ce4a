import NeuralNet.Proofs.Dataset
import NeuralNet.Proofs.DenseArray.Samples
import NeuralNet.Proofs.Random.Shuffle

/-!
# What an epoch goes through

The batches of an epoch hold every sample once, together with its label. All batches but the last
are full.

* `perm_order`: the positions of an epoch, shuffled or not;
* `samples_batchesWith`, `size_of_batchesWith`: the samples in the batches, and their number;
* `batchesWith_covers`: what is in the batches of an epoch, and how much of it.
-/

namespace NeuralNet

variable {α : Type} {width count : Nat} {xs : List α}

theorem length_pieces (width count : Nat) (xs : List α) :
    (pieces width count xs).length = count := by
  induction count generalizing xs with
  | zero => rfl
  | succ count ih => rw [pieces, List.length_cons, ih]

theorem getElem?_pieces {i : Nat} (h : i < count) :
    (pieces width count xs)[i]? = some ((xs.drop (i * width)).take width) := by
  induction count generalizing xs i with
  | zero => exact absurd h (Nat.not_lt_zero i)
  | succ count ih =>
    rw [pieces]
    cases i with
    | zero => simp
    | succ i =>
      rw [List.getElem?_cons_succ, ih (Nat.lt_of_succ_lt_succ h), List.drop_drop, Nat.succ_mul,
        Nat.add_comm]

/-- With no more pieces than it takes all but the last are full. -/
theorem length_of_getElem?_pieces {i : Nat} {p : List α} (h : count * width < xs.length + width)
    (hi : i + 1 < count) (hp : (pieces width count xs)[i]? = some p) : p.length = width := by
  rw [getElem?_pieces (Nat.lt_of_succ_lt hi), Option.some.injEq] at hp
  have hfull : (i + 2) * width ≤ count * width := Nat.mul_le_mul_right width hi
  rw [Nat.succ_mul, Nat.succ_mul] at hfull
  rw [← hp, List.length_take, List.length_drop]
  omega

namespace DenseArray

variable [Zero α] {a : DenseArray α} {n : Nat} {s : Extents} {positions : List Nat}

/-- What stands at a position of the first axis. -/
def atFirst (a : DenseArray α) (i : Nat) : DenseArray α := a.gather a.extents.tail (i :: ·)

theorem get_atFirst {l : List Nat} (hs : a.extents.tail = s) (hl : s.Contains l) (i : Nat) :
    (a.atFirst i).get l = a.get (i :: l) := get_gather (hs ▸ hl) _ _

theorem atFirst_selectFirst {i : Nat} (h : a.extents = n :: s) (hi : i < positions.length) :
    (a.selectFirst positions).atFirst i = a.atFirst positions[i] := by
  have hpicks := selectFirst_picks positions h
  have hs : a.extents.tail = s := by rw [h, List.tail_cons]
  have hs' : (a.selectFirst positions).extents.tail = s := hs
  refine ext_get (hs'.trans hs.symm) fun l hl => ?_
  have hl : s.Contains l := hs' ▸ hl
  rw [get_atFirst hs' hl, get_atFirst hs hl]
  exact hpicks.get i l hi hl

end DenseArray

/-- The samples of a batch, each with its label. -/
def Batch.samples [Zero α] (b : Batch α) : List (DenseArray α × DenseArray α) :=
  (List.range b.size).map fun i => (b.data.atFirst i, b.labels.atFirst i)

namespace Dataset

/-! ## Order -/

theorem perm_order (d : Dataset α) (seed : Option Nat) (epoch : Nat) :
    (d.order seed epoch).Perm (List.range d.size) := by
  cases seed with
  | none => exact .refl _
  | some seed => exact Draw.perm_shuffled d.size _

theorem length_order (d : Dataset α) (seed : Option Nat) (epoch : Nat) :
    (d.order seed epoch).length = d.size :=
  (d.perm_order seed epoch).length_eq.trans List.length_range

variable [Zero α]

/-- A sample with its label. -/
def sample (d : Dataset α) (i : Nat) : DenseArray α × DenseArray α :=
  (d.data.atFirst i, d.labels.atFirst i)

theorem size_batch (d : Dataset α) (positions : List Nat) :
    (d.batch positions).size = positions.length := rfl

theorem samples_batch (d : Dataset α) (positions : List Nat) :
    (d.batch positions).samples = positions.map d.sample := by
  refine List.ext_getElem ?_ fun i hi hi' => ?_
  · simp [Batch.samples, size_batch]
  · rw [List.length_map] at hi'
    simp only [Batch.samples, List.getElem_map, List.getElem_range, batch, sample]
    rw [DenseArray.atFirst_selectFirst d.extents_data hi',
      DenseArray.atFirst_selectFirst d.extents_labels hi']

/-! ## Batches of an epoch -/

theorem length_batchesWith (d : Dataset α) (hwidth : 0 < width) (seed : Option Nat) (epoch : Nat) :
    (d.batchesWith width seed epoch).length = pieceCount width d.size := by
  rw [d.batchesWith_eq hwidth, List.length_map, length_pieces]

theorem samples_batchesWith (d : Dataset α) (hwidth : 0 < width) (seed : Option Nat)
    (epoch : Nat) :
    (d.batchesWith width seed epoch).flatMap Batch.samples =
      (d.order seed epoch).map d.sample := by
  have hall : (d.order seed epoch).length ≤ pieceCount width d.size * width := by
    rw [d.length_order]
    exact (pieceCount_bounds hwidth d.size).1
  rw [d.batchesWith_eq hwidth, List.flatMap_map]
  simp only [samples_batch]
  rw [← List.map_flatMap, List.flatMap_id', flatten_pieces hall]

/-- No batch is empty or larger than asked for, and only the last one may be smaller. -/
theorem size_of_batchesWith (d : Dataset α) (hwidth : 0 < width) {seed : Option Nat} {epoch i : Nat}
    {b : Batch α} (hb : (d.batchesWith width seed epoch)[i]? = some b) :
    1 ≤ b.size ∧ b.size ≤ width ∧ (i + 1 < pieceCount width d.size → b.size = width) := by
  have hnone : pieceCount width d.size * width < (d.order seed epoch).length + width := by
    rw [d.length_order]
    exact (pieceCount_bounds hwidth d.size).2
  rw [d.batchesWith_eq hwidth, List.getElem?_map, Option.map_eq_some_iff] at hb
  obtain ⟨p, hp, rfl⟩ := hb
  have hmem := List.mem_of_getElem? hp
  refine ⟨?_, length_le_of_mem_pieces p hmem, fun hi => ?_⟩
  · exact List.length_pos_of_ne_nil (ne_nil_of_mem_pieces hwidth hnone p hmem)
  · exact length_of_getElem?_pieces hnone hi hp

/-- The batches of an epoch hold every sample once and with its label, in the order of the samples
unless there is a seed. All batches but the last have as many samples as asked for, and the last one
has at least one. There are as many batches as announced. -/
theorem batchesWith_covers (d : Dataset α) {width : Nat} (hwidth : 0 < width) (seed : Option Nat)
    (epoch : Nat) :
    let batches := d.batchesWith width seed epoch
    (∃ order : List Nat, order.Perm (List.range d.size) ∧
      (seed = none → order = List.range d.size) ∧
      batches.flatMap Batch.samples = order.map d.sample) ∧
    (∀ b ∈ batches, b.data.extents = b.size :: d.data.extents.tail ∧
      b.labels.extents = b.size :: d.labels.extents.tail) ∧
    (∀ b ∈ batches.dropLast, b.size = width) ∧
    (∀ b ∈ batches.getLast?, 1 ≤ b.size ∧ b.size ≤ width) ∧
    batches.length = pieceCount width d.size ∧ (d.batches epoch).length = d.batchCount := by
  intro batches
  have hbatches : batches = _ := d.batchesWith_eq hwidth seed epoch
  have hlength : batches.length = pieceCount width d.size := d.length_batchesWith hwidth seed epoch
  have hcount := d.length_batchesWith d.batchSize_pos d.shuffle epoch
  refine ⟨⟨d.order seed epoch, d.perm_order seed epoch, ?_, d.samples_batchesWith hwidth _ _⟩,
    fun b hb => ?_, fun b hb => ?_, fun b hb => ?_, hlength, hcount⟩
  · rintro rfl
    rfl
  · rw [hbatches] at hb
    obtain ⟨p, -, rfl⟩ := List.mem_map.mp hb
    exact ⟨rfl, rfl⟩
  · obtain ⟨i, hi⟩ := List.getElem?_of_mem hb
    rw [List.getElem?_dropLast, Option.ite_none_right_eq_some] at hi
    exact (d.size_of_batchesWith hwidth hi.2).2.2 (by omega)
  · rw [Option.mem_def, List.getLast?_eq_getElem?] at hb
    obtain ⟨hpos, hle, -⟩ := d.size_of_batchesWith hwidth hb
    exact ⟨hpos, hle⟩

/-- Three samples in another order, two at a time and then one. -/
theorem batchesWith_covers_three :
    let d : Dataset Nat :=
      ⟨⟨[3, 1], #[10, 20, 30], rfl⟩, ⟨[3], #[1, 2, 3], rfl⟩, 2, some 7, 3, rfl, rfl, by decide⟩
    let batches := d.batchesWith 2 (some 7) 1
    0 < 2 ∧ (∃ order : List Nat, order.Perm [0, 1, 2] ∧
        batches.flatMap Batch.samples = order.map d.sample) ∧
      (∀ b ∈ batches.dropLast, b.size = 2) ∧ batches.length = 2 ∧ (d.batches 1).length = 2 := by
  intro d batches
  have hwidth : 0 < 2 := Nat.two_pos
  obtain ⟨⟨order, hperm, -, hsamples⟩, -, hfull, -, hlength, hcount⟩ :=
    d.batchesWith_covers hwidth (some 7) 1
  have htwo : pieceCount 2 3 = 2 := by decide
  exact ⟨hwidth, ⟨order, hperm, hsamples⟩, hfull, hlength.trans htwo, hcount.trans htwo⟩

end Dataset

end NeuralNet
