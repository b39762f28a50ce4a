import NeuralNet.Proofs.DenseArray.Convolution
import NeuralNet.Proofs.Tape.Sweep

/-!
# The way back through a convolution

A convolution is linear in its input, in its weight and in its bias. What a gradient of the result
gives each of the three is the adjoint of that linear map. All of them are read off the same sum,
`Convolution.pairing`.

* `Run.passOn_convolve_adjoint`: what a recorded convolution adds to the gradients of its operands.
-/

namespace NeuralNet

open Finset (range)

namespace Convolution

variable {α : Type} [ExactScalar α] {c : Convolution} {g x w : DenseArray α} {n f r j : Nat}

/-- The gradient at a window, by the number of the window. -/
def arriving (c : Convolution) (g : DenseArray α) (n f j : Nat) : α :=
  (g.relaid [c.batch, c.filters, c.cols]).get [n, f, j]

/-- A weight by the number of its place in the filter. -/
def weight (c : Convolution) (w : DenseArray α) (f r : Nat) : α :=
  (w.relaid [c.filters, c.rows]).get [f, r]

/-- What the table finds in a sample. -/
def column (c : Convolution) (x : DenseArray α) (n r j : Nat) : α := c.im2col c.indexTable x n r j

/-- Every value of `g` with every product that a convolution sums at its index. -/
def pairing (c : Convolution) (g w x : DenseArray α) : α :=
  ∑ n ∈ range c.batch, ∑ f ∈ range c.filters, ∑ j ∈ range c.cols, ∑ r ∈ range c.rows,
    c.arriving g n f j * (c.weight w f r * c.column x n r j)

theorem size_outputs (c : Convolution) : Extents.size [c.batch, c.filters, c.cols] =
    Extents.size (c.batch :: c.filters :: c.output) := by
  simp [Extents.size, cols]

theorem get_product_eq_sum {rows terms columns : Nat} {a b : Nat → Nat → α} (hr : r < rows)
    (hj : j < columns) : (DenseArray.product rows terms columns a b).get [r, j] =
      ∑ t ∈ range terms, a r t * b t j := by
  rw [DenseArray.get_product hr hj, ExactScalar.sumUpTo_eq_sum_range]

theorem dot_apply (hg : g.extents = c.batch :: c.filters :: c.output) :
    g.dot (c.apply x w none) = c.pairing g w x := by
  rw [apply, DenseArray.dot_relaid c.size_outputs hg, DenseArray.dot]
  change ∑ i ∈ Extents.box [c.batch, c.filters, c.cols], _ = _
  simp only [Extents.sum_box_cons, Extents.sum_box_nil, pairing]
  apply Finset.sum_congr rfl
  intro n hn
  apply Finset.sum_congr rfl
  intro f hf
  apply Finset.sum_congr rfl
  intro j hj
  have hf := Finset.mem_range.mp hf
  have hj := Finset.mem_range.mp hj
  have hcontains : Extents.Contains [c.filters, c.cols] [f, j] := ⟨hf, hj, trivial⟩
  rw [get_samples (Finset.mem_range.mp hn) hcontains, get_product_eq_sum hf hj, Finset.mul_sum]
  rfl

/-! ## The input -/

/-- Every position is one of a row and a column. -/
theorem sum_rows_cols {M : Type} [AddCommMonoid M] (rows cols : Nat) (f : Nat → Nat → M) :
    ∑ k ∈ range (rows * cols), f (k / cols) (k % cols) =
      ∑ r ∈ range rows, ∑ j ∈ range cols, f r j := by
  have hpair := Extents.sum_unravel [rows, cols] fun i => f (i.headD 0) (i.getLastD 0)
  simp only [Extents.size, Extents.unravel, Extents.sum_box_cons, Extents.sum_box_nil, Nat.mul_one,
    Nat.div_one] at hpair
  exact hpair

/-- The table has positions of a sample. -/
theorem lt_of_getElem?_indexTable (hregular : c.Regular) {k i : Nat} (hk : k < c.indexTable.size)
    (h : (c.indexTable[k]?).join = some i) : i < c.sampleSize := by
  have hk : k < c.rows * c.cols := c.size_indexTable ▸ hk
  have hcols : 0 < c.cols := Nat.pos_of_ne_zero fun hzero => by simp [hzero] at hk
  have hrow : k / c.cols < Extents.size (c.channels :: c.kernel) :=
    Nat.div_lt_of_lt_mul (Nat.mul_comm c.rows c.cols ▸ hk)
  have hcol : k % c.cols < c.output.size := Nat.mod_lt k hcols
  have hplace := Extents.contains_unravel hrow
  have hposition := Extents.ravel_unravel hrow
  obtain ⟨channel, l, hindex, hchannel, hl⟩ := Extents.exists_of_contains_cons hplace
  rw [hindex] at hplace hposition
  have ho := Extents.contains_unravel hcol
  have hentry := getElem?_indexTable hregular hplace ho
  rw [hposition, Extents.ravel_unravel hcol, Nat.div_add_mod'] at hentry
  rw [hentry, Option.join_some] at h
  obtain ⟨i, hunder, rfl⟩ := Option.map_eq_some_iff.mp h
  refine Extents.ravel_lt_size (s := c.channels :: c.input) ⟨hchannel, ?_⟩
  exact contains_of_under hregular.stride hregular.padding
    ((Extents.length_of_contains ho).trans hregular.output)
    ((Extents.length_of_contains hl).trans hregular.kernel) hunder

/-- What is added up in a sample is weighed there as what the table finds in it. -/
theorem collect_dot_sample (hregular : c.Regular) (d x : DenseArray α) (n : Nat) :
    ∑ i ∈ range c.sampleSize, (DenseArray.collect [c.sampleSize] c.indexTable.size
        (fun k => (c.indexTable[k]?).join.map ([·]))
        fun k => d.get [k / c.cols, k % c.cols]).get [i] * x.entry (n * c.sampleSize + i) =
      ∑ r ∈ range c.rows, ∑ j ∈ range c.cols, d.get [r, j] * c.column x n r j := by
  let place (k : Nat) : Option (List Nat) := (c.indexTable[k]?).join.map ([·])
  let sent : DenseArray α :=
    .collect [c.sampleSize] c.indexTable.size place fun k => d.get [k / c.cols, k % c.cols]
  let sample : DenseArray α :=
    .generate [c.sampleSize] fun l => x.entry (n * c.sampleSize + l.headD 0)
  have hsample : ∀ i < c.sampleSize, sample.get [i] = x.entry (n * c.sampleSize + i) :=
    fun i hi => DenseArray.get_generate (s := [c.sampleSize]) (i := [i]) ⟨hi, trivial⟩ _
  have hplace : ∀ k < c.indexTable.size, ∀ p, place k = some p →
      Extents.Contains [c.sampleSize] p := by
    intro k hk p hp
    obtain ⟨i, hi, rfl⟩ := Option.map_eq_some_iff.mp hp
    exact ⟨lt_of_getElem?_indexTable hregular hk hi, trivial⟩
  calc ∑ i ∈ range c.sampleSize, sent.get [i] * x.entry (n * c.sampleSize + i)
      = sent.dot sample := by
        change _ = ∑ l ∈ Extents.box [c.sampleSize], sent.get l * sample.get l
        simp only [Extents.sum_box_cons, Extents.sum_box_nil]
        apply Finset.sum_congr rfl
        intro i hi
        rw [hsample i (Finset.mem_range.mp hi)]
    _ = ∑ k ∈ range c.indexTable.size, d.get [k / c.cols, k % c.cols] *
          (place k).elim 0 sample.get := DenseArray.dot_collect hplace sample
    _ = ∑ k ∈ range (c.rows * c.cols), d.get [k / c.cols, k % c.cols] *
          c.column x n (k / c.cols) (k % c.cols) := by
        rw [size_indexTable]
        apply Finset.sum_congr rfl
        intro k hk
        have hk : k < c.indexTable.size := c.size_indexTable ▸ Finset.mem_range.mp hk
        simp only [place, column, im2col, Nat.div_add_mod']
        cases hentry : (c.indexTable[k]?).join with
        | none => rfl
        | some i =>
          rw [Option.map_some, Option.elim_some, Option.elim_some,
            hsample i (lt_of_getElem?_indexTable hregular hk hentry)]
    _ = _ := sum_rows_cols _ _ fun r j => d.get [r, j] * c.column x n r j

theorem toInput_dot (hregular : c.Regular) (hx : x.extents = c.batch :: c.channels :: c.input) :
    (c.toInput g w).dot x = c.pairing g w x := by
  have hsize : Extents.size [c.batch, c.sampleSize] =
      Extents.size (c.batch :: c.channels :: c.input) := by
    simp [Extents.size, sampleSize]
  rw [toInput, DenseArray.relaid_dot hsize hx, DenseArray.dot]
  change ∑ i ∈ Extents.box [c.batch, c.sampleSize], _ = _
  simp only [Extents.sum_box_cons, Extents.sum_box_nil]
  apply Finset.sum_congr rfl
  intro n hn
  have hn := Finset.mem_range.mp hn
  let d : DenseArray α := DenseArray.product c.rows c.filters c.cols (fun r f => c.weight w f r)
    fun f j => c.arriving g n f j
  calc _ = ∑ r ∈ range c.rows, ∑ j ∈ range c.cols, d.get [r, j] * c.column x n r j := by
        rw [← collect_dot_sample hregular d x n]
        apply Finset.sum_congr rfl
        intro i hi
        have hcontains : Extents.Contains [c.sampleSize] [i] := ⟨Finset.mem_range.mp hi, trivial⟩
        have hcontains' : Extents.Contains [c.batch, c.sampleSize] [n, i] := ⟨hn, hcontains⟩
        have hentry : (x.relaid [c.batch, c.sampleSize]).get [n, i] =
            x.entry (n * c.sampleSize + i) := by
          rw [DenseArray.get_relaid hcontains']
          simp [Extents.ravel, Extents.size]
        rw [get_samples hn hcontains]
        exact congrArg _ hentry
    _ = ∑ r ∈ range c.rows, ∑ j ∈ range c.cols, ∑ f ∈ range c.filters,
          c.arriving g n f j * (c.weight w f r * c.column x n r j) := by
        apply Finset.sum_congr rfl
        intro r hr
        apply Finset.sum_congr rfl
        intro j hj
        rw [get_product_eq_sum (Finset.mem_range.mp hr) (Finset.mem_range.mp hj), Finset.sum_mul]
        apply Finset.sum_congr rfl
        intro f _
        rw [mul_assoc, mul_left_comm]
    _ = ∑ f ∈ range c.filters, ∑ j ∈ range c.cols, ∑ r ∈ range c.rows,
          c.arriving g n f j * (c.weight w f r * c.column x n r j) := by
        rw [Finset.sum_congr rfl fun r _ => Finset.sum_comm, Finset.sum_comm]
        apply Finset.sum_congr rfl
        intro f _
        exact Finset.sum_comm

/-! ## The weight and the bias -/

theorem get_foldl_zipWith (part : Nat → DenseArray α) {s : Extents} (hpart : ∀ n, (part n).extents = s)
    (count : Nat) : ∃ total : DenseArray α, (List.range count).foldl
        (fun sum n => sum.zipWith (· + ·) (part n)) (.zeros s) = total ∧ total.extents = s ∧
      ∀ i, s.Contains i → total.get i = ∑ n ∈ range count, (part n).get i := by
  induction count with
  | zero =>
    refine ⟨_, rfl, rfl, fun i hi => ?_⟩
    rw [Finset.sum_range_zero]
    exact DenseArray.get_full 0 hi
  | succ count ih =>
    obtain ⟨total, htotal, hextents, hget⟩ := ih
    refine ⟨total.zipWith (· + ·) (part count), ?_, hextents, fun i hi => ?_⟩
    · rw [List.range_succ, List.foldl_append, htotal]
      rfl
    · rw [DenseArray.get_zipWith _ hextents (hpart count) hi, hget i hi, Finset.sum_range_succ]

theorem toWeight_dot {b : DenseArray α} (hb : b.extents = c.filters :: c.channels :: c.kernel) :
    (c.toWeight g x).dot b = c.pairing g b x := by
  let part (n : Nat) : DenseArray α := DenseArray.product c.filters c.cols c.rows
    (fun f j => c.arriving g n f j) fun j r => c.column x n r j
  obtain ⟨total, htotal, hextents, hget⟩ :=
    get_foldl_zipWith part (s := [c.filters, c.rows]) (fun _ => rfl) c.batch
  have hsize : total.extents.size = Extents.size (c.filters :: c.channels :: c.kernel) := by
    rw [hextents]
    simp [Extents.size, rows]
  have hweight : c.toWeight g x = total.relaid (c.filters :: c.channels :: c.kernel) :=
    congrArg (DenseArray.relaid · _) htotal
  rw [hweight, DenseArray.relaid_dot hsize hb, DenseArray.dot, hextents]
  simp only [Extents.sum_box_cons, Extents.sum_box_nil]
  calc _ = ∑ f ∈ range c.filters, ∑ r ∈ range c.rows, ∑ n ∈ range c.batch, ∑ j ∈ range c.cols,
          c.arriving g n f j * (c.weight b f r * c.column x n r j) := by
        apply Finset.sum_congr rfl
        intro f hf
        apply Finset.sum_congr rfl
        intro r hr
        have hf := Finset.mem_range.mp hf
        have hr := Finset.mem_range.mp hr
        rw [hget [f, r] ⟨hf, hr, trivial⟩, Finset.sum_mul]
        apply Finset.sum_congr rfl
        intro n _
        rw [get_product_eq_sum hf hr, Finset.sum_mul]
        apply Finset.sum_congr rfl
        intro j _
        exact (mul_assoc _ _ _).trans (congrArg _ (mul_comm _ _))
    _ = ∑ n ∈ range c.batch, ∑ f ∈ range c.filters, ∑ r ∈ range c.rows, ∑ j ∈ range c.cols,
          c.arriving g n f j * (c.weight b f r * c.column x n r j) := by
        rw [Finset.sum_congr rfl fun f _ => Finset.sum_comm, Finset.sum_comm]
    _ = c.pairing g b x := by
        apply Finset.sum_congr rfl
        intro n _
        apply Finset.sum_congr rfl
        intro f _
        exact Finset.sum_comm

/-- The sum over the windows, and then over the samples. -/
theorem get_toBias (hf : f < c.filters) : (c.toBias g).get [f] =
    ∑ n ∈ range c.batch, ∑ j ∈ range c.cols, c.arriving g n f j := by
  calc (c.toBias g).get [f]
      = Scalar.sumUpTo c.batch fun n =>
          ((g.relaid [c.batch, c.filters, c.cols]).sumAxis 2).get [n, f] :=
        DenseArray.get_generate (s := [c.filters]) (i := [f]) ⟨hf, trivial⟩ _
    _ = ∑ n ∈ range c.batch, ((g.relaid [c.batch, c.filters, c.cols]).sumAxis 2).get [n, f] :=
        ExactScalar.sumUpTo_eq_sum_range _ _
    _ = _ := by
        apply Finset.sum_congr rfl
        intro n hn
        have hcontains : Extents.Contains [c.batch, c.filters] [n, f] :=
          ⟨Finset.mem_range.mp hn, hf, trivial⟩
        exact (DenseArray.get_generate hcontains _).trans
          (ExactScalar.sumUpTo_eq_sum_range c.cols fun j => c.arriving g n f j)

theorem arriving_ravel {o : List Nat} (hg : g.extents = c.batch :: c.filters :: c.output)
    (hi : Extents.Contains (c.batch :: c.filters :: c.output) (n :: f :: o)) :
    c.arriving g n f (c.output.ravel o) = g.get (n :: f :: o) := by
  obtain ⟨hn, hf, ho⟩ := id hi
  refine DenseArray.get_relaid_eq ⟨hn, hf, Extents.ravel_lt_size ho, trivial⟩ ?_
  rw [hg]
  simp [Extents.ravel, Extents.size, cols]

theorem toBias_dot (hg : g.extents = c.batch :: c.filters :: c.output) (d : DenseArray α) :
    (c.toBias g).dot d = g.dot (.generate g.extents fun i => d.get [i.getD 1 0]) := by
  have hextents : (c.toBias g).extents = [c.filters] := rfl
  rw [DenseArray.dot, DenseArray.dot, hextents, hg]
  simp only [Extents.sum_box_cons, Extents.sum_box_nil]
  rw [Finset.sum_comm (s := range c.batch)]
  apply Finset.sum_congr rfl
  intro f hf
  have hf := Finset.mem_range.mp hf
  rw [get_toBias hf, Finset.sum_mul]
  apply Finset.sum_congr rfl
  intro n hn
  have hn := Finset.mem_range.mp hn
  have hcols : ∑ j ∈ range c.cols, c.arriving g n f j =
      ∑ o ∈ c.output.box, c.arriving g n f (c.output.ravel o) :=
    (Extents.sum_box_ravel c.output fun j => c.arriving g n f j).symm
  rw [hcols, Finset.sum_mul]
  apply Finset.sum_congr rfl
  intro o ho
  have hi : Extents.Contains (c.batch :: c.filters :: c.output) (n :: f :: o) :=
    ⟨hn, hf, Extents.mem_box.mp ho⟩
  rw [DenseArray.get_generate hi, arriving_ravel hg hi]
  rfl

end Convolution

namespace Run

variable {α : Type} [ExactScalar α] {x k y : Tensor} {bias : Option Tensor}
  {stride padding : List Nat} {w w' u : Workspace α} {op : Operation α} {id : Nat}
  {g : DenseArray α}

/-- A recorded convolution passes on one gradient to each of its operands. -/
theorem passOn_convolve {c : Convolution} {input weight : DenseArray α}
    (hg : u.gradient (.node id) = some g)
    (hop : u.origin (.node id) = some (.convolve x k bias c input weight)) :
    passOn id u = (do
      addGradient x (c.toInput g weight)
      addGradient k (c.toWeight g input)
      bias.toList.forM (addGradient · (c.toBias g))) u := by
  rw [passOn_of_gradient hg hop, Workspace.links, hop]
  cases bias with
  | none => rfl
  | some b => rfl

/-- What the way back through a convolution adds to the gradients of the input, the weight and the
bias are the values at the gradient of the result of the adjoints of convolving with the weight,
of convolving the input, and of adding a value per filter. -/
theorem passOn_convolve_adjoint (h : x.convolve k bias stride padding w = (.ok (.node id), w'))
    (hop : w'.origin (.node id) = some op) (hu : u.origin (.node id) = some op)
    (hg : u.gradient (.node id) = some g) (hextents : g.extents = (w'.value (.node id)).extents) :
    ∃ (c : Convolution) (dX dW db : DenseArray α),
      Convolution.fit (w.value x).extents (w.value k).extents stride padding = .ok c ∧
      w'.value (.node id) = c.apply (w.value x) (w.value k) (bias.map w.value) ∧
      passOn id u = (do
        addGradient x dX
        addGradient k dW
        bias.toList.forM (addGradient · db)) u ∧
      dX.extents = (w.value x).extents ∧ dW.extents = (w.value k).extents ∧
      (∀ b ∈ bias, db.extents = (w.value b).extents) ∧
      (∀ a : DenseArray α, a.extents = (w.value x).extents →
        g.dot (c.apply a (w.value k) none) = dX.dot a) ∧
      (∀ b : DenseArray α, b.extents = (w.value k).extents →
        g.dot (c.apply (w.value x) b none) = dW.dot b) ∧
      ∀ d : DenseArray α, d.extents = [c.filters] →
        g.dot (.generate g.extents fun i => d.get [i.getD 1 0]) = db.dot d := by
  obtain ⟨c, hfits, hbias, hrecord⟩ := convolve_ok_iff.mp h
  obtain rfl := origin_record hrecord hop
  have hvalue := value_record hrecord
  rw [hvalue] at hextents
  refine ⟨c, c.toInput g (w.value k), c.toWeight g (w.value x), c.toBias g,
    Convolution.fit_eq_ok_iff.mpr hfits, hvalue, passOn_convolve hg hu, hfits.input.symm,
    hfits.weight.symm, ?_, ?_, ?_, ?_⟩
  · intro b hb
    exact (hbias b hb).symm
  · intro a ha
    rw [Convolution.dot_apply hextents,
      Convolution.toInput_dot hfits.regular (ha.trans hfits.input)]
  · intro b hb
    rw [Convolution.dot_apply hextents, Convolution.toWeight_dot (hb.trans hfits.weight)]
  · intro d _
    exact (Convolution.toBias_dot hextents d).symm

section Example

/-- Two windows over three values, which share the middle one. -/
def windows : Run ℤ Tensor := do
  let x ← leaf ⟨[1, 1, 3], #[1, 1, 1], rfl⟩ true
  let k ← leaf ⟨[1, 1, 2], #[1, 1], rfl⟩ true
  let b ← leaf ⟨[1], #[0], rfl⟩ true
  x.convolve k (some b) [1] [0]

theorem passOn_convolve_adjoint_windows :
    let w := (windows (.seeded 0)).2
    let u := (addGradient (.node 3) (.ones [1, 1, 2]) w).2
    ∃ (c : Convolution) (dX dW db : DenseArray ℤ),
      passOn 3 u = (do
        addGradient (.node 0) dX
        addGradient (.node 1) dW
        [Tensor.node 2].forM (addGradient · db)) u ∧
      (∀ a : DenseArray ℤ, a.extents = [1, 1, 3] →
        DenseArray.dot (.ones [1, 1, 2]) (c.apply a ⟨[1, 1, 2], #[1, 1], rfl⟩ none) = dX.dot a) := by
  intro w u
  have h : (Tensor.node 0).convolve (.node 1) (some (.node 2)) [1] [0]
      { w with nodes := w.nodes.take 3 } = (.ok (.node 3), w) := rfl
  obtain ⟨c, dX, dW, db, -, -, hpassed, -, -, -, hinput, -⟩ :=
    passOn_convolve_adjoint (u := u) (g := .ones [1, 1, 2]) h rfl rfl rfl rfl
  exact ⟨c, dX, dW, db, hpassed, hinput⟩

example :
    let u := (backward (.node 3) (windows (.seeded 0)).2).2
    (u.gradient (.node 0)).map (·.toList) = some [1, 2, 1] ∧
      (u.gradient (.node 1)).map (·.toList) = some [2, 2] ∧
      (u.gradient (.node 2)).map (·.toList) = some [2] := by
  decide +kernel

end Example

end Run

end NeuralNet
