import NeuralNet.DenseArray.Convolve
import NeuralNet.Proofs.DenseArray.Product

/-!
# What lies under a window

The table of a convolution tells by positions what lies under the places of a filter. Told by indices,
every axis is on its own: the window is shifted to its place on the axis, and is in the padding if it
is in the padding of any axis. An output is one filter times what the table finds for one window.

* `Convolution.under`: the index under a place of a filter;
* `Convolution.getElem?_indexTable`: the table has its position;
* `Convolution.get_apply`: an output by the sum that the product takes for it;
* `Convolution.regroup_filters`, `regroup_bias`, `regroup_windows`: the layouts as matrices never fail.
-/

namespace NeuralNet

open Scalar (sumUpTo)

namespace Convolution

/-! ## Positions -/

theorem foldr_digits (s : Extents) (p : Nat) :
    s.foldr (fun n (rest : Nat × List Nat) => (rest.1 / n, rest.1 % n :: rest.2)) (p, []) =
      (p / s.size, s.unravel (p % s.size)) := by
  induction s with
  | nil => simp [Extents.size, Extents.unravel]
  | cons n s ih =>
    rw [List.foldr_cons, ih, Extents.unravel, Extents.size, Nat.mod_mul_left_div_self,
      Nat.mod_mul_left_mod, Nat.div_div_eq_div_mul, Nat.mul_comm (Extents.size s)]

/-- From the last axis on, the same index is found as from the first one on. -/
theorem digits_eq_unravel {s : Extents} {p : Nat} (h : p < s.size) : digits s p = s.unravel p := by
  rw [digits, foldr_digits, Nat.mod_eq_of_lt h]

theorem getElem?_flatMap_range {β : Type} {f : Nat → List β} {n w r j : Nat}
    (hlen : ∀ r, (f r).length = w) (hr : r < n) (hj : j < w) :
    ((List.range n).flatMap f)[r * w + j]? = (f r)[j]? := by
  have hlength : ∀ n, ((List.range n).flatMap f).length = n * w := by
    intro n
    simp [hlen]
  induction n with
  | zero => cases hr
  | succ n ih =>
    rw [List.range_succ, List.flatMap_append, List.flatMap_singleton]
    by_cases hlast : r = n
    · subst hlast
      rw [List.getElem?_append_right (by rw [hlength]; omega), hlength, Nat.add_sub_cancel_left]
    · have hr : r < n := by omega
      have hlt : r * w + j < n * w := by
        calc r * w + j < r * w + w := by omega
          _ = (r + 1) * w := (Nat.succ_mul r w).symm
          _ ≤ n * w := Nat.mul_le_mul_right w hr
      rw [List.getElem?_append_left (by rwa [hlength]), ih hr]

/-! ## The table -/

/-- The index under place `k` of a filter for the window at `o`; none in the padding. -/
def under : (input : Extents) → (stride padding o k : List Nat) → Option (List Nat)
  | n :: input, s :: stride, p :: padding, o :: os, k :: ks =>
    let q := shifted s p o k
    if q < 0 ∨ n ≤ q.toNat then none
    else (under input stride padding os ks).map fun i => q.toNat :: i
  | _, _, _, _, _ => some []

/-- The sizes have an entry for each axis that windows move along. -/
structure Regular (c : Convolution) : Prop where
  kernel : c.kernel.length = c.input.length
  stride : c.stride.length = c.input.length
  padding : c.padding.length = c.input.length
  output : c.output.length = c.input.length

section Under

variable {input : Extents} {stride padding o l i : List Nat}

/-- The position is taken up axis by axis. -/
theorem offset?_eq (hstride : stride.length = input.length) (hpadding : padding.length = input.length)
    (ho : o.length = input.length) (hl : l.length = input.length) (offset : Nat) :
    offset? input stride padding o l offset =
      (under input stride padding o l).map fun i => offset * input.size + input.ravel i := by
  induction input generalizing stride padding o l offset with
  | nil => simp [offset?, under, Extents.size, Extents.ravel]
  | cons n input ih =>
    obtain ⟨s, stride, rfl⟩ := List.exists_cons_of_length_eq_add_one hstride
    obtain ⟨p, padding, rfl⟩ := List.exists_cons_of_length_eq_add_one hpadding
    obtain ⟨j, o, rfl⟩ := List.exists_cons_of_length_eq_add_one ho
    obtain ⟨k, l, rfl⟩ := List.exists_cons_of_length_eq_add_one hl
    rw [offset?, under]
    split
    · rfl
    · rw [ih (Nat.succ.inj hstride) (Nat.succ.inj hpadding) (Nat.succ.inj ho) (Nat.succ.inj hl),
        Option.map_map]
      congr 1
      funext i
      simp only [Function.comp_apply, Extents.size, Extents.ravel]
      ring

/-- What is found under a window is in the input. -/
theorem contains_of_under (hstride : stride.length = input.length)
    (hpadding : padding.length = input.length) (ho : o.length = input.length)
    (hl : l.length = input.length) (h : under input stride padding o l = some i) :
    input.Contains i := by
  induction input generalizing stride padding o l i with
  | nil =>
    cases h
    trivial
  | cons n input ih =>
    obtain ⟨a, stride, rfl⟩ := List.exists_cons_of_length_eq_add_one hstride
    obtain ⟨b, padding, rfl⟩ := List.exists_cons_of_length_eq_add_one hpadding
    obtain ⟨c, o, rfl⟩ := List.exists_cons_of_length_eq_add_one ho
    obtain ⟨d, l, rfl⟩ := List.exists_cons_of_length_eq_add_one hl
    rw [under] at h
    obtain ⟨hin, h⟩ := Option.ite_none_left_eq_some.mp h
    obtain ⟨i, hi, rfl⟩ := Option.map_eq_some_iff.mp h
    refine ⟨?_, ih (Nat.succ.inj hstride) (Nat.succ.inj hpadding) (Nat.succ.inj ho)
      (Nat.succ.inj hl) hi⟩
    exact Nat.not_le.mp fun hle => hin (.inr hle)

end Under

variable {c : Convolution} {o k : List Nat} {channel : Nat}

theorem size_indexTable (c : Convolution) : c.indexTable.size = c.rows * c.cols := by
  simp [indexTable]

/-- In the row of a place and the column of a window, the table has the position that is there. -/
theorem getElem?_indexTable (hregular : c.Regular)
    (hk : Extents.Contains (c.channels :: c.kernel) (channel :: k)) (ho : c.output.Contains o) :
    c.indexTable[Extents.ravel (c.channels :: c.kernel) (channel :: k) * c.cols +
        c.output.ravel o]? =
      some ((under c.input c.stride c.padding o k).map fun i =>
        Extents.ravel (c.channels :: c.input) (channel :: i)) := by
  have hplace := Extents.ravel_lt_size hk.2
  have hrow : Extents.ravel (c.channels :: c.kernel) (channel :: k) < c.rows :=
    Extents.ravel_lt_size hk
  have hchannel : Extents.ravel (c.channels :: c.kernel) (channel :: k) / c.kernel.size = channel := by
    rw [Extents.ravel, Nat.mul_comm, Nat.mul_add_div (Nat.zero_lt_of_lt hplace),
      Nat.div_eq_of_lt hplace, Nat.add_zero]
  have hdigits : digits c.kernel
      (Extents.ravel (c.channels :: c.kernel) (channel :: k) % c.kernel.size) = k := by
    rw [Extents.ravel, Nat.mul_comm, Nat.mul_add_mod, Nat.mod_eq_of_lt hplace,
      digits_eq_unravel hplace, Extents.unravel_ravel hk.2]
  have hcol : c.output.ravel o < c.cols := Extents.ravel_lt_size ho
  have hwindow : digits c.output (c.output.ravel o) = o := by
    rw [digits_eq_unravel hcol, Extents.unravel_ravel ho]
  have hlength := Extents.length_of_contains hk.2
  rw [indexTable, List.getElem?_toArray, getElem?_flatMap_range (by simp) hrow hcol]
  simp only [List.getElem?_map, List.getElem?_range hcol, Option.map_some, hchannel, hdigits,
    hwindow]
  rw [offset?_eq hregular.stride hregular.padding
    ((Extents.length_of_contains ho).trans hregular.output) (hlength.trans hregular.kernel),
    Option.map_map]
  congr 2
  funext i
  simp [Extents.ravel]

section Values

variable {α : Type}

/-- The padded input: 0 outside. -/
def paddedInput [Zero α] (c : Convolution) (x : DenseArray α) (n channel : Nat) (o k : List Nat) :
    α :=
  match under c.input c.stride c.padding o k with
  | some i => x.get (n :: channel :: i)
  | none => 0

theorem im2col_eq [Zero α] {x : DenseArray α} {batch n : Nat} (hregular : c.Regular)
    (hx : x.extents = batch :: c.channels :: c.input)
    (hk : Extents.Contains (c.channels :: c.kernel) (channel :: k)) (ho : c.output.Contains o) :
    c.im2col c.indexTable x n (Extents.ravel (c.channels :: c.kernel) (channel :: k))
      (c.output.ravel o) = c.paddedInput x n channel o k := by
  rw [im2col, getElem?_indexTable hregular hk ho, paddedInput]
  cases under c.input c.stride c.padding o k with
  | none => rfl
  | some i =>
    simp only [Option.map_some, Option.join_some, Option.elim_some, DenseArray.get, hx]
    rfl

theorem get_samples [Zero α] {count n : Nat} {s : Extents} {l : List Nat}
    {sample : Nat → DenseArray α} (hn : n < count) (hl : s.Contains l) :
    (samples count s sample).get (n :: l) = (sample n).get l := by
  have hi : Extents.Contains (count :: s) (n :: l) := ⟨hn, hl⟩
  rw [samples, DenseArray.get_generate hi]
  simp only [Array.getElem?_ofFn, hn, dif_pos, Option.elim_some]

end Values

/-! ## Outputs -/

section Outputs

variable {α : Type} [Scalar α] {x w : DenseArray α}

/-- One weight of a filter times the value under it, at one place of a sample. -/
def tap (c : Convolution) (w x : DenseArray α) (j f : Nat) (o : List Nat) (t : Nat) : α :=
  match Extents.unravel (c.channels :: c.kernel) t with
  | channel :: k => w.get (f :: channel :: k) * c.paddedInput x j channel o k
  | [] => 0

/-- One filter at one place of a sample. -/
def place (c : Convolution) (w : DenseArray α) (bias : Option (DenseArray α)) (x : DenseArray α)
    (j f : Nat) (o : List Nat) : α :=
  let total := sumUpTo (Extents.size (c.channels :: c.kernel)) (c.tap w x j f o)
  match bias with
  | some b => total + b.get [f]
  | none => total

theorem get_product_eq {m j f : Nat} (hregular : c.Regular)
    (hx : x.extents = m :: c.channels :: c.input) (hw : w.extents = c.filters :: c.channels :: c.kernel)
    (hf : f < c.filters) (ho : c.output.Contains o) :
    (DenseArray.product c.filters c.rows c.cols
      (fun f r => (w.relaid [c.filters, c.rows]).get [f, r]) (c.im2col c.indexTable x j)).get
        [f, c.output.ravel o] =
      sumUpTo (Extents.size (c.channels :: c.kernel)) (c.tap w x j f o) := by
  have hcol : c.output.ravel o < c.cols := Extents.ravel_lt_size ho
  rw [DenseArray.get_product hf hcol]
  refine DenseArray.sumUpTo_congr fun t ht => ?_
  have ht : t < Extents.size (c.channels :: c.kernel) := ht
  have hcontains := Extents.contains_unravel ht
  have hposition := Extents.ravel_unravel ht
  rw [tap]
  cases hindex : Extents.unravel (c.channels :: c.kernel) t with
  | nil =>
    rw [hindex] at hcontains
    cases hcontains
  | cons channel k =>
    rw [hindex] at hcontains hposition
    have hweight : (w.relaid [c.filters, c.rows]).get [f, t] = w.get (f :: channel :: k) := by
      refine DenseArray.get_relaid_eq ⟨hf, ht, trivial⟩ ?_
      rw [hw, ← hposition]
      simp [Extents.ravel, Extents.size, rows]
    have hvalue := im2col_eq (n := j) hregular hx hcontains ho
    rw [hposition] at hvalue
    rw [hweight, hvalue]

omit [Scalar α] in
/-- A bias is read by its filter. -/
theorem project_bias {F n f j : Nat} (hf : f < F) :
    Extents.project [F, 1] [n, f, j] = [f, 0] := by
  rw [Extents.project_cons (by simp)]
  by_cases hF : F = 1
  · simp [Extents.project, hF, Nat.lt_one_iff.mp (hF ▸ hf)]
  · simp [Extents.project, hF]

/-- An output is the filter at its place, whose windows are found by the table. -/
theorem get_apply {bias : Option (DenseArray α)} {m j f : Nat} (hregular : c.Regular)
    (hx : x.extents = m :: c.channels :: c.input) (hw : w.extents = c.filters :: c.channels :: c.kernel)
    (hbias : ∀ b ∈ bias, b.extents = [c.filters])
    (h : Extents.Contains (m :: c.filters :: c.output) (j :: f :: o)) :
    ({ c with batch := m }.apply x w bias).get (j :: f :: o) = c.place w bias x j f o := by
  obtain ⟨hj, hf, ho⟩ := id h
  have hcol : c.output.ravel o < c.cols := Extents.ravel_lt_size ho
  have hproduct : Extents.Contains [m, c.filters, c.cols] [j, f, c.output.ravel o] :=
    ⟨hj, hf, hcol, trivial⟩
  have hposition : Extents.ravel (m :: c.filters :: c.output) (j :: f :: o) =
      Extents.ravel [m, c.filters, c.cols] [j, f, c.output.ravel o] := by
    simp [Extents.ravel, Extents.size, cols]
  have hsum : (samples m [c.filters, c.cols] fun n =>
      DenseArray.product c.filters c.rows c.cols
        (fun f r => (w.relaid [c.filters, c.rows]).get [f, r]) (c.im2col c.indexTable x n)).get
          [j, f, c.output.ravel o] =
        sumUpTo (Extents.size (c.channels :: c.kernel)) (c.tap w x j f o) := by
    rw [get_samples hj hproduct.2, get_product_eq hregular hx hw hf ho]
  unfold place
  cases bias with
  | none => exact (DenseArray.get_relaid_eq h hposition).trans hsum
  | some b =>
    have hshift : (b.relaid [c.filters, 1]).get
        (Extents.project [c.filters, 1] [j, f, c.output.ravel o]) = b.get [f] := by
      rw [project_bias hf]
      refine DenseArray.get_relaid_eq ⟨hf, Nat.one_pos, trivial⟩ ?_
      rw [hbias b rfl]
      simp [Extents.ravel, Extents.size]
    refine (DenseArray.get_relaid_eq h hposition).trans ?_
    refine (DenseArray.get_broadcastWith _ _ _ hproduct).trans ?_
    refine congrArg₂ (· + ·) ?_ hshift
    exact (congrArg _ (Extents.project_self hproduct)).trans hsum

end Outputs

/-! ## Matrices -/

section Matrices

variable {α : Type} [Zero α] {w g b : DenseArray α}

/-- The filters have as many values as their matrix: laying them out never fails. -/
theorem regroup_filters (hw : w.extents = c.filters :: c.channels :: c.kernel) :
    w.regroup [c.filters, c.rows] = .ok (w.relaid [c.filters, c.rows]) := by
  apply DenseArray.regroup_relaid
  simp [hw, Extents.size, rows]

theorem regroup_bias (hb : b.extents = [c.filters]) :
    b.regroup [c.filters, 1] = .ok (b.relaid [c.filters, 1]) := by
  apply DenseArray.regroup_relaid
  simp [hb, Extents.size]

/-- Outputs and their gradients are matrices with a column for every window. -/
theorem regroup_windows (hg : g.extents = c.batch :: c.filters :: c.output) :
    g.regroup [c.batch, c.filters, c.cols] = .ok (g.relaid [c.batch, c.filters, c.cols]) := by
  apply DenseArray.regroup_relaid
  simp [hg, Extents.size, cols]

end Matrices

end Convolution

end NeuralNet
