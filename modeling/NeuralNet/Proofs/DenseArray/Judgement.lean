import Mathlib.Algebra.BigOperators.Ring.List
import NeuralNet.DenseArray.Loss
import NeuralNet.Loss
import NeuralNet.Proofs.DenseArray.Samples

/-!
# Judgements are means over the samples

The losses divide by rows or by values, and what a label is taken for goes by its extents. All the
same, with exact quotients the loss of some samples is the mean of the losses that they have alone,
and so is the accuracy.

* `averages_meanSquare`, `averages_crossEntropy`, `averages_accuracy`;
* `exists_worth`: loss and accuracy together;
* `weightedMean_pieces`: the mean over all samples, taken piece by piece.
-/

namespace NeuralNet

open Scalar (sumUpTo)

/-! ## Entries of chosen samples -/

namespace DenseArray

variable {α : Type} [Zero α] {a a' : DenseArray α} {idx : List Nat} {n k i rows width : Nat}
  {s : Extents}

omit [Zero α] in
theorem length_toList (a : DenseArray α) : a.toList.length = a.size := Array.length_toList

theorem getElem_toList {p : Nat} (hp : p < a.toList.length) : a.toList[p] = a.entry p := by
  have hsize : p < a.values.size := Array.length_toList ▸ hp
  rw [entry, Array.getElem?_eq_getElem hsize, Option.getD_some]
  exact Array.getElem_toList _

/-- The values of a sample stand behind each other. -/
theorem Picks.entry (h : Picks idx n s a a') (hk : k < idx.length) (hi : i < s.size) :
    a'.entry (k * s.size + i) = a.entry (idx[k] * s.size + i) := by
  have hcontains := Extents.contains_unravel hi
  have hpicked := h.get k (s.unravel i) hk hcontains
  have hravel : ∀ c j : Nat, Extents.ravel (c :: s) (j :: s.unravel i) = j * s.size + i := by
    intro c j
    rw [Extents.ravel, Extents.ravel_unravel hi]
  unfold DenseArray.get at hpicked
  rwa [h.picked, h.extents, hravel, hravel] at hpicked

theorem Picks.size_eq (h : Picks idx n s a a') : a'.size = idx.length * s.size := by
  rw [size, a'.size_eq, h.picked, Extents.size]

/-- So do the rows of a sample. -/
theorem Picks.row (h : Picks idx n s a a') (hk : k < idx.length) (hwidth : a.width = width)
    (hwidth' : a'.width = width) (hsize : s.size = rows * width) (hi : i < rows) :
    a'.row (k * rows + i) = a.row (idx[k] * rows + i) := by
  unfold DenseArray.row
  rw [hwidth, hwidth']
  refine List.map_congr_left fun j hj => ?_
  have hlt : i * width + j < s.size := by
    rw [hsize]
    exact Nat.lt_of_lt_of_le (Nat.add_lt_add_left (List.mem_range.mp hj) _)
      (Nat.succ_mul i width ▸ Nat.mul_le_mul_right width hi)
  have hplace : ∀ c : Nat, (c * rows + i) * width + j = c * s.size + (i * width + j) := fun c => by
    rw [hsize, Nat.add_mul, Nat.mul_assoc, Nat.add_assoc]
  rw [hplace, hplace, h.entry hk hlt]

end DenseArray

/-! ## Sums over samples -/

section

variable {α : Type} [ExactField α] {idx : List Nat} {n m : Nat}

theorem sumUpTo_mul (m n : Nat) (f : Nat → α) :
    sumUpTo (m * n) f = ((List.range m).map fun k => sumUpTo n fun i => f (k * n + i)).sum := by
  induction m with
  | zero => simp [sumUpTo]
  | succ m ih =>
    rw [Nat.succ_mul, ExactScalar.sumUpTo_eq_sum, List.range_add, List.map_append, List.sum_append,
      ← ExactScalar.sumUpTo_eq_sum, ih, List.range_succ, List.map_append, List.sum_append,
      List.map_map]
    simp [ExactScalar.sumUpTo_eq_sum, Function.comp_def]

/-- A sum over the values of chosen samples, sample by sample. -/
theorem sumUpTo_samples {f : Nat → α} {g : Nat → Nat → α}
    (h : ∀ k (hk : k < idx.length), ∀ i < n, f (k * n + i) = g idx[k] i) :
    sumUpTo (idx.length * n) f = (idx.map fun j => sumUpTo n (g j)).sum := by
  rw [sumUpTo_mul]
  congr 1
  refine List.ext_getElem (by simp) fun k hk hk' => ?_
  have hlt : k < idx.length := by simpa using hk
  simp only [List.getElem_map, List.getElem_range]
  exact DenseArray.sumUpTo_congr fun i hi => h k hlt i hi

/-- The mean of some numbers. -/
def mean (value : Nat → α) (js : List Nat) : α := (js.map value).sum / (js.length : α)

/-- A sum over samples of `m` values each, divided by the number of values. -/
theorem sum_div_count (part : Nat → α) (hne : idx ≠ []) (hzero : m = 0 → ∀ j, part j = 0) :
    (idx.map part).sum / Scalar.ofNat (max (idx.length * m) 1) =
      mean (fun j => part j / Scalar.ofNat (max m 1)) idx := by
  have hsum : ∀ c : α, (idx.map fun j => part j / c).sum = (idx.map part).sum / c := fun c => by
    simp only [div_eq_mul_inv, List.sum_map_mul_right]
  rw [mean, hsum, ExactField.ofNat_eq, ExactField.ofNat_eq, div_div]
  rcases Nat.eq_zero_or_pos m with rfl | hm
  · have hsum : (idx.map part).sum = 0 :=
      List.sum_eq_zero (List.forall_mem_map.mpr fun j _ => hzero rfl j)
    rw [hsum, zero_div, zero_div]
  · have hlen : 1 ≤ idx.length * m := Nat.mul_pos (List.length_pos_of_ne_nil hne) hm
    rw [Nat.max_eq_left hlen, Nat.max_eq_left hm, Nat.cast_mul, mul_comm]

/-- Of any samples the mean is computed of what each of them is worth, if all are valid. -/
def Averages (f : List Nat → Except Error α) (valid : Nat → Prop) (value : Nat → α) : Prop :=
  ∀ js, js ≠ [] → ∀ v, f js = .ok v ↔ (∀ j ∈ js, valid j) ∧ v = mean value js

theorem mean_mul_length (value : Nat → α) (js : List Nat) :
    mean value js * (js.length : α) = (js.map value).sum := by
  rcases eq_or_ne js [] with rfl | hne
  · simp [mean]
  · have hlen : (js.length : α) ≠ 0 :=
      Nat.cast_ne_zero.mpr (Nat.pos_iff_ne_zero.mp (List.length_pos_of_ne_nil hne))
    exact div_mul_cancel₀ _ hlen

/-- The means over some pieces, weighted by how many samples they have, give the mean over all. -/
theorem weightedMean_pieces (value : Nat → α) (ps : List (List Nat)) :
    Scalar.weightedMean (ps.map fun js => (mean value js, js.length)) =
      if ps.flatten = [] then none else some (mean value ps.flatten) := by
  have hcount : ((ps.map fun js => (mean value js, js.length)).map (·.2)).sum =
      ps.flatten.length := by
    rw [List.map_map, List.length_flatten]
    rfl
  have hsum : ((ps.map fun js => (mean value js, js.length)).map fun p => p.1 * (p.2 : α)).sum =
      (ps.flatten.map value).sum := by
    rw [List.map_map, List.map_flatten, List.sum_flatten, List.map_map]
    exact congrArg List.sum (List.map_congr_left fun js _ => mean_mul_length value js)
  rw [ExactField.weightedMean_eq, hcount, hsum, mean]
  simp only [List.length_eq_zero_iff]

end

/-! ## Losses -/

namespace Loss

variable {α : Type} [Scalar α]

/-- The loss of a prediction. -/
def evaluate (loss : Loss) (y label : DenseArray α) : Except Error α :=
  match loss with
  | l2 =>
    if label.size ≠ y.size then
      .error (.shapeMismatch "l2 label" (.extents y.extents) (.extents label.extents))
    else .ok (y.meanSquare label)
  | softmaxCrossEntropy =>
    match y.extents.getLast? with
    | none =>
      .error (.shapeMismatch "softmax cross entropy logits" (.words "rank >= 1") (.words "rank 0"))
    | some classes => do
      let targets ← label.denseTargets (Extents.size y.extents.dropLast) classes
      return y.crossEntropy targets

/-- The loss of a prediction and, where classes are told apart, the accuracy. -/
def judge (loss : Loss) (y label : DenseArray α) : Except Error (α × Option α) := do
  let value ← loss.evaluate y label
  match loss with
  | softmaxCrossEntropy => return (value, some (← y.accuracy label))
  | l2 => return (value, none)

end Loss

namespace DenseArray

variable {α : Type} [ExactField α] {y label : DenseArray α} {n classes : Nat} {s s' : Extents}

open Loss (l2 softmaxCrossEntropy)

/-- The squared distance of a sample from its label. -/
def sampleSquare (y label : DenseArray α) (values j : Nat) : α :=
  sumUpTo values fun i =>
    (y.entry (j * values + i) - label.entry (j * values + i)) *
      (y.entry (j * values + i) - label.entry (j * values + i))

theorem meanSquare_samples {y' label' : DenseArray α} {js : List Nat} (hne : js ≠ [])
    (hy : Picks js n s y y') (hlabel : Picks js n s' label label') (hfits : s'.size = s.size) :
    y'.meanSquare label' =
      mean (fun j => y.sampleSquare label s.size j / Scalar.ofNat (max s.size 1)) js := by
  rw [← sum_div_count _ hne fun hzero j => by rw [sampleSquare, hzero, sumUpTo]]
  unfold meanSquare sum
  rw [hy.size_eq, size, (y'.zipWith _ label').size_eq]
  change sumUpTo y'.extents.size _ / _ = _
  rw [hy.picked, Extents.size, sumUpTo_samples fun k hk i hi => ?_]
  · rfl
  have hlt : k * s.size + i < y'.extents.size := by
    rw [hy.picked, Extents.size]
    exact Nat.lt_of_lt_of_le (Nat.add_lt_add_left hi _)
      (Nat.succ_mul k s.size ▸ Nat.mul_le_mul_right s.size hk)
  have hentry := hlabel.entry hk (hfits.symm ▸ hi)
  rw [hfits] at hentry
  rw [entry_zipWith, if_pos hlt, hy.entry hk hi, hentry]

theorem averages_meanSquare (hy : y.extents = n :: s) (hlabel : label.extents = n :: s') :
    Averages (fun js => l2.evaluate (y.selectFirst js) (label.selectFirst js))
      (fun _ => s'.size = s.size)
      fun j => y.sampleSquare label s.size j / Scalar.ofNat (max s.size 1) := by
  intro js hne v
  have hpicks := selectFirst_picks js hy
  have hpicks' := selectFirst_picks js hlabel
  have hpos := List.length_pos_of_ne_nil hne
  unfold Loss.evaluate
  dsimp only
  rw [hpicks.size_eq, hpicks'.size_eq]
  by_cases hfits : s'.size = s.size
  · rw [if_neg (by rw [hfits, not_not]), meanSquare_samples hne hpicks hpicks' hfits]
    simp [hfits, eq_comm]
  · have hsizes : js.length * s'.size ≠ js.length * s.size := fun h =>
      hfits (Nat.eq_of_mul_eq_mul_left hpos h)
    rw [if_pos hsizes]
    constructor
    · intro h
      cases h
    · rintro ⟨hvalid, -⟩
      exact absurd (hvalid _ (List.head_mem hne)) hfits

/-! ## Targets -/

/-- All weight for one class. -/
def oneHot (classes c : Nat) : List α := (List.range classes).map fun i => if c = i then 1 else 0

/-- A label with one row of weights for every sample, which is one row of the prediction. -/
def Weighs (s' : Extents) (rows classes : Nat) : Prop := rows = 1 ∧ s' = [classes]

instance {s' : Extents} {rows classes : Nat} : Decidable (Weighs s' rows classes) :=
  inferInstanceAs (Decidable (_ ∧ _))

/-- The weights for a row of the prediction: as the label gives them, or by the class that it
names. -/
def targetRow (label : DenseArray α) (weighs : Bool) (classes r : Nat) : Except Error (List α) :=
  if weighs then .ok (label.row r) else oneHot classes <$> classOf classes (label.entry r)

variable {label' targets : DenseArray α} {js : List Nat} {rows : Nat}

theorem denseTargets_of_weighs (hlabel : Picks js n s' label label')
    (hweighs : Weighs s' rows classes) :
    label'.denseTargets (js.length * rows) classes = .ok label' := by
  obtain ⟨rfl, rfl⟩ := hweighs
  exact if_pos (by rw [hlabel.picked, Nat.mul_one])

theorem extents_ne_of_not_weighs (hne : js ≠ []) (hlabel : Picks js n s' label label')
    (hweighs : ¬Weighs s' rows classes) : label'.extents ≠ [js.length * rows, classes] := by
  intro h
  rw [hlabel.picked] at h
  obtain ⟨hlen, htail⟩ := List.cons.inj h
  have hpos := List.length_pos_of_ne_nil hne
  exact hweighs ⟨Nat.eq_of_mul_eq_mul_left hpos (by omega), htail⟩

theorem denseTargets_of_size_ne (hne : js ≠ []) (hlabel : Picks js n s' label label')
    (hweighs : ¬Weighs s' rows classes) (hsize : s'.size ≠ rows) :
    ∃ e, label'.denseTargets (js.length * rows) classes = .error e := by
  have hpos := List.length_pos_of_ne_nil hne
  unfold denseTargets
  rw [if_neg (extents_ne_of_not_weighs hne hlabel hweighs), hlabel.size_eq,
    if_pos fun h => hsize (Nat.eq_of_mul_eq_mul_left hpos h)]
  exact ⟨_, rfl⟩

theorem denseTargets_of_classes (hne : js ≠ []) (hlabel : Picks js n s' label label')
    (hweighs : ¬Weighs s' rows classes) (hsize : s'.size = rows) :
    label'.denseTargets (js.length * rows) classes = .ok targets ↔
      ∃ chosen, label'.toList.mapM (classOf classes) = .ok chosen ∧
        targets = generate [js.length * rows, classes] fun i =>
          if chosen.toArray[i.headD 0]? = some (i.getLastD 0) then 1 else 0 := by
  unfold denseTargets
  rw [if_neg (extents_ne_of_not_weighs hne hlabel hweighs), hlabel.size_eq,
    if_neg (not_not.mpr (by rw [hsize])), bind_eq_ok_iff]
  simp only [pure, Except.pure, Except.ok.injEq, eq_comm]

/-- The rows of the targets are those of the samples. -/
theorem targetRow_of_denseTargets (hne : js ≠ []) (hlabel : Picks js n s' label label')
    (h : label'.denseTargets (js.length * rows) classes = .ok targets) :
    (Weighs s' rows classes ∨ s'.size = rows) ∧ targets.width = classes ∧
      ∀ k (hk : k < js.length), ∀ i < rows,
        label.targetRow (Weighs s' rows classes) classes (js[k] * rows + i) =
          .ok (targets.row (k * rows + i)) := by
  by_cases hweighs : Weighs s' rows classes
  · cases (denseTargets_of_weighs hlabel hweighs).symm.trans h
    obtain ⟨rfl, rfl⟩ := hweighs
    have hwidth := width_of_concat (s := [n]) hlabel.extents
    have hwidth' := width_of_concat (s := [js.length]) hlabel.picked
    refine ⟨.inl ⟨rfl, rfl⟩, hwidth', fun k hk i hi => ?_⟩
    rw [targetRow, if_pos (decide_eq_true ⟨rfl, rfl⟩),
      hlabel.row hk hwidth hwidth' (by simp [Extents.size]) hi]
  · have hsize : s'.size = rows := by
      by_contra hsize
      obtain ⟨e, he⟩ := denseTargets_of_size_ne hne hlabel hweighs hsize
      cases h.symm.trans he
    obtain ⟨chosen, hchosen, rfl⟩ := (denseTargets_of_classes hne hlabel hweighs hsize).mp h
    obtain ⟨hlen, hclasses⟩ := List.forall₂_iff_get.mp (mapM_eq_ok_iff.mp hchosen)
    refine ⟨.inr hsize, width_of_concat (s := [js.length * rows]) rfl, fun k hk i hi => ?_⟩
    have hrow : k * rows + i < js.length * rows :=
      Nat.lt_of_lt_of_le (Nat.add_lt_add_left hi _)
        (Nat.succ_mul k rows ▸ Nat.mul_le_mul_right rows hk)
    have hlt : k * rows + i < label'.toList.length := by
      rw [length_toList, hlabel.size_eq, hsize]
      exact hrow
    have hentry := hlabel.entry hk (hsize.symm ▸ hi)
    have hplace : k * rows + i < chosen.length := hlen ▸ hlt
    have hclass : classOf classes (label'.entry (k * rows + i)) =
        .ok chosen[k * rows + i] := by
      rw [← getElem_toList hlt]
      exact hclasses _ hlt hplace
    rw [hsize] at hentry
    rw [targetRow, if_neg (by simpa using hweighs), row_generate _ hrow, ← hentry, hclass]
    have hchosen : chosen[k * rows + i]? = some chosen[k * rows + i] :=
      List.getElem?_eq_getElem hplace
    simp [oneHot, Functor.map, Except.map, hchosen]

/-- There are targets if there are rows for all samples. -/
theorem denseTargets_of_targetRow (hne : js ≠ []) (hlabel : Picks js n s' label label')
    (hfits : Weighs s' rows classes ∨ s'.size = rows)
    (h : ∀ j ∈ js, ∀ i < rows, ∃ row,
      label.targetRow (Weighs s' rows classes) classes (j * rows + i) = .ok row) :
    ∃ targets, label'.denseTargets (js.length * rows) classes = .ok targets := by
  by_cases hweighs : Weighs s' rows classes
  · exact ⟨_, denseTargets_of_weighs hlabel hweighs⟩
  have hsize := hfits.resolve_left hweighs
  have hchosen : ∃ chosen, label'.toList.mapM (classOf classes) = .ok chosen := by
    simp only [mapM_eq_ok_iff, exists_forall₂]
    intro v hv
    obtain ⟨p, hp, rfl⟩ := List.mem_iff_getElem.mp hv
    have hlt : p < js.length * rows := by
      rwa [length_toList, hlabel.size_eq, hsize] at hp
    have hrows : 0 < rows := Nat.pos_of_mul_pos_left (Nat.zero_lt_of_lt hlt)
    have hk : p / rows < js.length := Nat.div_lt_of_lt_mul (by rwa [Nat.mul_comm])
    have hi : p % rows < rows := Nat.mod_lt _ hrows
    have hplace : p / rows * rows + p % rows = p := Nat.div_add_mod' p rows
    obtain ⟨row, hrow⟩ := h _ (List.getElem_mem hk) _ hi
    have hentry := hlabel.entry hk (hsize.symm ▸ hi)
    rw [hsize, hplace] at hentry
    rw [targetRow, if_neg (by simpa using hweighs), ← hentry] at hrow
    obtain ⟨c, hc, -⟩ := map_eq_ok_iff.mp hrow
    exact ⟨c, by rw [getElem_toList hp, hc]⟩
  obtain ⟨chosen, hchosen⟩ := hchosen
  exact ⟨_, (denseTargets_of_classes hne hlabel hweighs hsize).mpr ⟨chosen, hchosen, rfl⟩⟩

/-! ## Rows of the prediction -/

/-- The label of a sample gives a row of weights for each of its rows. -/
def Labels (label : DenseArray α) (s' : Extents) (rows classes j : Nat) : Prop :=
  (Weighs s' rows classes ∨ s'.size = rows) ∧ ∀ i < rows, ∃ row,
    label.targetRow (Weighs s' rows classes) classes (j * rows + i) = .ok row

/-- The weights for a row of the prediction, if there are any. -/
def weightsOf (label : DenseArray α) (s' : Extents) (rows classes r : Nat) : List α :=
  (label.targetRow (Weighs s' rows classes) classes r).toOption.getD []

theorem denseTargets_ok_iff (hne : js ≠ []) (hlabel : Picks js n s' label label') :
    (∃ targets, label'.denseTargets (js.length * rows) classes = .ok targets) ↔
      ∀ j ∈ js, label.Labels s' rows classes j := by
  constructor
  · rintro ⟨targets, h⟩ j hj
    obtain ⟨hfits, -, hrows⟩ := targetRow_of_denseTargets hne hlabel h
    obtain ⟨k, hk, rfl⟩ := List.getElem_of_mem hj
    exact ⟨hfits, fun i hi => ⟨_, hrows k hk i hi⟩⟩
  · intro h
    exact denseTargets_of_targetRow hne hlabel (h _ (List.head_mem hne)).1 fun j hj => (h j hj).2

theorem row_denseTargets (hne : js ≠ []) (hlabel : Picks js n s' label label')
    (h : label'.denseTargets (js.length * rows) classes = .ok targets) {k i : Nat}
    (hk : k < js.length) (hi : i < rows) :
    targets.row (k * rows + i) = label.weightsOf s' rows classes (js[k] * rows + i) := by
  obtain ⟨-, -, hrows⟩ := targetRow_of_denseTargets hne hlabel h
  rw [weightsOf, hrows k hk i hi]
  rfl

variable {y' : DenseArray α}

theorem width_picked (hy : Picks js n (s ++ [classes]) y y') :
    y.width = classes ∧ y'.width = classes :=
  ⟨width_of_concat (s := n :: s) hy.extents, width_of_concat (s := js.length :: s) hy.picked⟩

theorem row_picked (hy : Picks js n (s ++ [classes]) y y') {k i : Nat} (hk : k < js.length)
    (hi : i < s.size) : y'.row (k * s.size + i) = y.row (js[k] * s.size + i) := by
  obtain ⟨hwidth, hwidth'⟩ := width_picked hy
  exact hy.row hk hwidth hwidth' (by simp [Extents.size_append, Extents.size]) hi

theorem size_picked (hy : Picks js n (s ++ [classes]) y y') :
    y'.size = js.length * s.size * classes := by
  rw [hy.size_eq, Extents.size_append, Nat.mul_assoc]
  simp [Extents.size]

/-- The entropy of the rows of a sample. -/
def sampleEntropy (y label : DenseArray α) (s' : Extents) (rows classes j : Nat) : α :=
  sumUpTo rows fun i =>
    rowEntropy (y.row (j * rows + i)) (label.weightsOf s' rows classes (j * rows + i))

theorem crossEntropy_samples (hne : js ≠ []) (hy : Picks js n (s ++ [classes]) y y')
    (hlabel : Picks js n s' label label')
    (h : label'.denseTargets (js.length * s.size) classes = .ok targets) :
    y'.crossEntropy targets =
      mean (fun j => y.sampleEntropy label s' s.size classes j / Scalar.ofNat (max s.size 1))
        js := by
  have hrows : ∀ k (hk : k < js.length), ∀ i < s.size,
      rowEntropy (y'.row (k * s.size + i)) (targets.row (k * s.size + i)) =
        rowEntropy (y.row (js[k] * s.size + i))
          (label.weightsOf s' s.size classes (js[k] * s.size + i)) := fun k hk i hi => by
    rw [row_picked hy hk hi, row_denseTargets hne hlabel h hk hi]
  unfold crossEntropy rowCount
  rw [size_picked hy, (width_picked hy).2]
  rcases Nat.eq_zero_or_pos classes with rfl | hclasses
  · have hzero : ∀ j, y.sampleEntropy label s' s.size 0 j = 0 := fun j => by
      have hrow : ∀ r, y.row r = [] := fun r => by
        rw [DenseArray.row, (width_picked hy).1, List.range_zero, List.map_nil]
      unfold sampleEntropy
      rw [ExactScalar.sumUpTo_eq_sum]
      refine List.sum_eq_zero (List.forall_mem_map.mpr fun i _ => ?_)
      rw [hrow]
      rfl
    rw [Nat.div_zero, sumUpTo, zero_div]
    simp [mean, hzero]
  · rw [Nat.mul_div_cancel _ hclasses, sumUpTo_samples (g := fun j i => rowEntropy
      (y.row (j * s.size + i)) (label.weightsOf s' s.size classes (j * s.size + i))) hrows]
    refine sum_div_count (y.sampleEntropy label s' s.size classes) hne fun hzero j => ?_
    rw [sampleEntropy, hzero, sumUpTo]

theorem averages_crossEntropy (hy : y.extents = n :: (s ++ [classes]))
    (hlabel : label.extents = n :: s') :
    Averages (fun js => softmaxCrossEntropy.evaluate (y.selectFirst js) (label.selectFirst js))
      (label.Labels s' s.size classes)
      fun j => y.sampleEntropy label s' s.size classes j / Scalar.ofNat (max s.size 1) := by
  intro js hne v
  have hpicks := selectFirst_picks js hy
  have hpicks' := selectFirst_picks js hlabel
  have hevaluate : softmaxCrossEntropy.evaluate (y.selectFirst js) (label.selectFirst js) = do
      let targets ← (label.selectFirst js).denseTargets (js.length * s.size) classes
      return (y.selectFirst js).crossEntropy targets := by
    have hsplit : js.length :: (s ++ [classes]) = js.length :: s ++ [classes] := rfl
    simp only [Loss.evaluate]
    rw [hpicks.picked, hsplit, List.getLast?_concat, List.dropLast_concat, Extents.size]
  dsimp only
  rw [hevaluate, bind_eq_ok_iff, ← denseTargets_ok_iff hne hpicks']
  constructor
  · rintro ⟨targets, htargets, hvalue⟩
    cases hvalue
    exact ⟨⟨targets, htargets⟩, crossEntropy_samples hne hpicks hpicks' htargets⟩
  · rintro ⟨⟨targets, htargets⟩, rfl⟩
    exact ⟨targets, htargets, congrArg Except.ok (crossEntropy_samples hne hpicks hpicks' htargets)⟩

/-- How many rows of a sample are counted: none if they have no classes. -/
def countedRows (s : Extents) (classes : Nat) : Nat := s.size * classes / max classes 1

/-- How many rows of a sample are classified as its label says. -/
def sampleHits (y label : DenseArray α) (s' : Extents) (rows classes j : Nat) : Nat :=
  (List.range rows).countP fun i => Scalar.argmax (y.row (j * rows + i)) ==
    Scalar.argmax (label.weightsOf s' rows classes (j * rows + i))

theorem cast_countP (p : Nat → Bool) (m : Nat) :
    ((List.range m).countP p : α) = sumUpTo m fun r => if p r then 1 else 0 := by
  induction m with
  | zero => simp [sumUpTo]
  | succ m ih =>
    rw [List.range_succ, List.countP_append, Nat.cast_add, ih, sumUpTo, List.countP_singleton]
    split <;> simp

theorem hits_samples (hne : js ≠ []) (hy : Picks js n (s ++ [classes]) y y')
    (hlabel : Picks js n s' label label')
    (h : label'.denseTargets (js.length * rows) classes = .ok targets)
    (hrows : rows = countedRows s classes) :
    ((List.range (js.length * rows)).countP fun r =>
        Scalar.argmax (y'.row r) == Scalar.argmax (targets.row r) : α) =
      (js.map fun j => (y.sampleHits label s' rows classes j : α)).sum := by
  let hit (j i : Nat) : Bool := Scalar.argmax (y.row (j * rows + i)) ==
    Scalar.argmax (label.weightsOf s' rows classes (j * rows + i))
  have hsame : ∀ k (hk : k < js.length), ∀ i < rows,
      (if Scalar.argmax (y'.row (k * rows + i)) == Scalar.argmax (targets.row (k * rows + i))
        then 1 else 0 : α) = if hit js[k] i then 1 else 0 := fun k hk i hi => by
    have hclasses : 0 < classes := by
      rcases Nat.eq_zero_or_pos classes with rfl | hclasses
      · simp [hrows, countedRows] at hi
      · exact hclasses
    have hsize : rows = s.size := by
      rw [hrows, countedRows, Nat.max_eq_left hclasses, Nat.mul_div_cancel _ hclasses]
    have hrow := row_picked hy hk (hsize ▸ hi)
    rw [← hsize] at hrow
    rw [hrow, row_denseTargets hne hlabel h hk hi]
  rw [cast_countP, sumUpTo_samples (g := fun j i => if hit j i then 1 else 0) hsame]
  exact congrArg List.sum (List.map_congr_left fun j _ => (cast_countP (hit j) rows).symm)

theorem averages_accuracy (hy : y.extents = n :: (s ++ [classes]))
    (hlabel : label.extents = n :: s') :
    Averages (fun js => (y.selectFirst js).accuracy (label.selectFirst js))
      (label.Labels s' (countedRows s classes) classes)
      fun j => (y.sampleHits label s' (countedRows s classes) classes j : α) /
        Scalar.ofNat (max (countedRows s classes) 1) := by
  intro js hne v
  have hpicks := selectFirst_picks js hy
  have hpicks' := selectFirst_picks js hlabel
  have hcount : (y.selectFirst js).size / max classes 1 = js.length * countedRows s classes := by
    rw [size_picked hpicks, countedRows]
    rcases Nat.eq_zero_or_pos classes with rfl | hclasses
    · simp
    · rw [Nat.max_eq_left hclasses, Nat.mul_div_cancel _ hclasses, Nat.mul_div_cancel _ hclasses]
  have hvalue : ∀ targets, (label.selectFirst js).denseTargets
      (js.length * countedRows s classes) classes = .ok targets →
        (Scalar.ofNat ((List.range (js.length * countedRows s classes)).countP fun r =>
            Scalar.argmax ((y.selectFirst js).row r) == Scalar.argmax (targets.row r)) /
          Scalar.ofNat (max (js.length * countedRows s classes) 1) : α) =
        mean (fun j => (y.sampleHits label s' (countedRows s classes) classes j : α) /
          Scalar.ofNat (max (countedRows s classes) 1)) js := fun targets htargets => by
    rw [ExactField.ofNat_eq, hits_samples hne hpicks hpicks' htargets rfl]
    refine sum_div_count (fun j =>
      (y.sampleHits label s' (countedRows s classes) classes j : α)) hne fun hzero j => ?_
    rw [sampleHits, hzero]
    simp
  unfold accuracy
  dsimp only
  rw [(width_picked hpicks).2, hcount, bind_eq_ok_iff, ← denseTargets_ok_iff hne hpicks']
  constructor
  · rintro ⟨targets, htargets, h⟩
    cases h
    exact ⟨⟨targets, htargets⟩, hvalue targets htargets⟩
  · rintro ⟨⟨targets, htargets⟩, rfl⟩
    exact ⟨targets, htargets, congrArg Except.ok (hvalue targets htargets)⟩

end DenseArray

/-! ## Loss and accuracy -/

/-- Which samples are valid, and what each of them is worth: its loss and its accuracy. -/
structure Worth (α : Type) where
  valid : Nat → Prop
  loss : Nat → α
  accuracy : Nat → α

/-- An accuracy, where classes are told apart. -/
def Loss.ofAccuracy {α : Type} : Loss → α → Option α
  | l2, _ => none
  | softmaxCrossEntropy, a => some a

variable {α : Type} [ExactField α]

/-- What some samples are worth together. -/
def Worth.means (v : Worth α) (loss : Loss) (js : List Nat) : α × Option α :=
  (mean v.loss js, loss.ofAccuracy (mean v.accuracy js))

/-- With its labels every prediction is judged by the mean worth of its samples. -/
theorem Loss.exists_worth {y label : DenseArray α} {n classes : Nat} {s s' : Extents} (loss : Loss)
    (hy : y.extents = n :: (s ++ [classes])) (hlabel : label.extents = n :: s') :
    ∃ v : Worth α, ∀ js, js ≠ [] → ∀ r,
      loss.judge (y.selectFirst js) (label.selectFirst js) = .ok r ↔
        (∀ j ∈ js, v.valid j) ∧ v.means loss js = r := by
  obtain ⟨valid', hits, haccuracy⟩ : ∃ valid hits, Averages
      (fun js => (y.selectFirst js).accuracy (label.selectFirst js)) valid hits :=
    ⟨_, _, DenseArray.averages_accuracy hy hlabel⟩
  cases loss with
  | l2 =>
    obtain ⟨valid, value, hloss⟩ : ∃ valid value, Averages
        (fun js => l2.evaluate (y.selectFirst js) (label.selectFirst js)) valid value :=
      ⟨_, _, DenseArray.averages_meanSquare hy hlabel⟩
    refine ⟨⟨valid, value, hits⟩, fun js hne r => ?_⟩
    simp only [judge, bind_eq_ok_iff, pure, Except.pure, Except.ok.injEq]
    constructor
    · rintro ⟨v, hv, rfl⟩
      obtain ⟨hvalid, rfl⟩ := (hloss js hne v).mp hv
      exact ⟨hvalid, rfl⟩
    · rintro ⟨hvalid, rfl⟩
      exact ⟨_, (hloss js hne _).mpr ⟨hvalid, rfl⟩, rfl⟩
  | softmaxCrossEntropy =>
    obtain ⟨valid, value, hloss⟩ : ∃ valid value, Averages
        (fun js => softmaxCrossEntropy.evaluate (y.selectFirst js) (label.selectFirst js))
        valid value := ⟨_, _, DenseArray.averages_crossEntropy hy hlabel⟩
    refine ⟨⟨fun j => valid j ∧ valid' j, value, hits⟩, fun js hne r => ?_⟩
    simp only [judge, bind_eq_ok_iff, pure, Except.pure, Except.ok.injEq]
    constructor
    · rintro ⟨v, hv, a, ha, rfl⟩
      obtain ⟨hvalid, rfl⟩ := (hloss js hne v).mp hv
      obtain ⟨hvalid', rfl⟩ := (haccuracy js hne a).mp ha
      exact ⟨fun j hj => ⟨hvalid j hj, hvalid' j hj⟩, rfl⟩
    · rintro ⟨hvalid, rfl⟩
      exact ⟨_, (hloss js hne _).mpr ⟨fun j hj => (hvalid j hj).1, rfl⟩, _,
        (haccuracy js hne _).mpr ⟨fun j hj => (hvalid j hj).2, rfl⟩, rfl⟩

end NeuralNet
