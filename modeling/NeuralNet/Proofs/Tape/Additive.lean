import Mathlib.Tactic.Ring
import NeuralNet.Proofs.DenseArray.Product
import NeuralNet.Tape.Operation

/-!
# Gradients are additive

In exact arithmetic everything that operations do with a gradient on the way back is additive, and
how it ends depends on the extents of the gradient only: `pullback_additive`.
-/

namespace NeuralNet

open Scalar (sumUpTo)

variable {α : Type} [ExactScalar α] {a b : DenseArray α}

namespace DenseArray

/-- The sum of two arrays of equal extents. -/
def plus (a b : DenseArray α) : DenseArray α := a.zipWith (· + ·) b

@[simp]
theorem extents_plus (a b : DenseArray α) : (a.plus b).extents = a.extents := rfl

omit [ExactScalar α] in
theorem size_eq_of_extents (h : a.extents = b.extents) : a.size = b.size := by
  rw [size, size, a.size_eq, b.size_eq, h]

theorem entry_plus (h : a.extents = b.extents) (k : Nat) :
    (a.plus b).entry k = a.entry k + b.entry k := by
  rw [plus, entry_zipWith]
  by_cases hk : k < a.extents.size
  · rw [if_pos hk]
  · have hle := Nat.not_lt.mp hk
    rw [if_neg hk, entry_of_le hle, entry_of_le (h ▸ hle), add_zero]

theorem get_plus (h : a.extents = b.extents) (i : List Nat) :
    (a.plus b).get i = a.get i + b.get i := by
  rw [get, entry_plus h, get, get, extents_plus, h]

theorem sum_plus (h : a.extents = b.extents) : (a.plus b).sum = a.sum + b.sum := by
  have hsize : (a.plus b).size = a.size := size_eq_of_extents rfl
  simp only [sum, hsize, ← size_eq_of_extents h, ← ExactScalar.sumUpTo_add, ← entry_plus h]

/-- The sum of some arrays, from left to right; none if there are none. -/
def sum? : List (DenseArray α) → Option (DenseArray α)
  | [] => none
  | a :: rest => some (rest.foldl plus a)

theorem extents_foldl_plus (a : DenseArray α) (rest : List (DenseArray α)) :
    (rest.foldl plus a).extents = a.extents := by
  induction rest generalizing a with
  | nil => rfl
  | cons b rest ih => rw [List.foldl_cons, ih, extents_plus]

theorem entry_foldl_plus {rest : List (DenseArray α)} (h : ∀ b ∈ rest, b.extents = a.extents)
    (k : Nat) : (rest.foldl plus a).entry k = a.entry k + (rest.map (·.entry k)).sum := by
  induction rest generalizing a with
  | nil => simp
  | cons b rest ih =>
    obtain ⟨hb, h⟩ := List.forall_mem_cons.mp h
    have hrest : ∀ c ∈ rest, c.extents = (a.plus b).extents := h
    rw [List.foldl_cons, ih hrest, entry_plus hb.symm, List.map_cons, List.sum_cons, add_assoc]

/-- A sum is known by its entries, whatever the order of its terms. -/
theorem eq_sum? {x : Option (DenseArray α)} {as : List (DenseArray α)} {s : Extents}
    (hx : ∀ a, x = some a → a.extents = s) (has : ∀ a ∈ as, a.extents = s)
    (hsome : x.isSome = true ↔ as ≠ [])
    (hentry : ∀ k, x.elim 0 (·.entry k) = (as.map (·.entry k)).sum) : x = sum? as := by
  cases as with
  | nil => exact Option.not_isSome_iff_eq_none.mp fun h => hsome.mp h rfl
  | cons a rest =>
    obtain ⟨b, rfl⟩ := Option.isSome_iff_exists.mp (hsome.mpr (List.cons_ne_nil a rest))
    obtain ⟨ha, hrest⟩ := List.forall_mem_cons.mp has
    refine congrArg some (ext_entry ?_ ?_)
    · rw [extents_foldl_plus, ha, hx b rfl]
    · intro k
      rw [entry_foldl_plus fun c hc => (hrest c hc).trans ha.symm]
      exact hentry k

/-- On arrays of equal extents the map gives arrays of equal extents, and the sum for the sum. -/
structure IsAdditive (F : DenseArray α → DenseArray α) : Prop where
  extents : ∀ {a b}, a.extents = b.extents → (F a).extents = (F b).extents
  entry : ∀ {a b}, a.extents = b.extents →
    ∀ k, (F (a.plus b)).entry k = (F a).entry k + (F b).entry k

namespace IsAdditive

variable {F G : DenseArray α → DenseArray α}

theorem plus (hF : IsAdditive F) (h : a.extents = b.extents) : F (a.plus b) = (F a).plus (F b) := by
  apply ext_entry
  · exact hF.extents rfl
  · intro k
    rw [hF.entry h, entry_plus (hF.extents h)]

theorem get (hF : IsAdditive F) (h : a.extents = b.extents) (i : List Nat) :
    (F (a.plus b)).get i = (F a).get i + (F b).get i := by
  rw [hF.plus h, get_plus (hF.extents h)]

theorem id : IsAdditive (id : DenseArray α → DenseArray α) := ⟨fun h => h, entry_plus⟩

theorem comp (hG : IsAdditive G) (hF : IsAdditive F) : IsAdditive fun g => G (F g) := by
  constructor
  · intro a b h
    exact hG.extents (hF.extents h)
  · intro a b h k
    rw [hF.plus h]
    exact hG.entry (hF.extents h) k

theorem generate {s : DenseArray α → Extents} {φ : DenseArray α → List Nat → α}
    (hs : ∀ {a b}, a.extents = b.extents → s a = s b)
    (hφ : ∀ {a b}, a.extents = b.extents → ∀ i, φ (a.plus b) i = φ a i + φ b i) :
    IsAdditive fun g => DenseArray.generate (s g) (φ g) := by
  constructor
  · intro a b h
    exact hs h
  · intro a b h k
    rw [entry_generate, entry_generate, entry_generate, ← hs h, hs (extents_plus a b)]
    split
    · exact hφ h _
    · rw [add_zero]

theorem collect {s : DenseArray α → Extents} {count : DenseArray α → Nat}
    {place : DenseArray α → Nat → Option (List Nat)} {term : DenseArray α → Nat → α}
    (hs : ∀ {a b}, a.extents = b.extents → s a = s b)
    (hcount : ∀ {a b}, a.extents = b.extents → count a = count b)
    (hplace : ∀ {a b}, a.extents = b.extents → place a = place b)
    (hterm : ∀ {a b}, a.extents = b.extents → ∀ j, term (a.plus b) j = term a j + term b j) :
    IsAdditive fun g => DenseArray.collect (s g) (count g) (place g) (term g) := by
  constructor
  · intro a b h
    exact hs h
  · intro a b h k
    have hsum := extents_plus a b
    rw [entry_collect, entry_collect, entry_collect, ← hs h, ← hcount h, ← hplace h, hs hsum,
      hcount hsum, hplace hsum]
    split
    · rw [← List.sum_map_add]
      congr 2
      funext j
      split
      · exact hterm h j
      · rw [add_zero]
    · rw [add_zero]

theorem zipWith (f : α → α → α) (hf : ∀ x y z, f (x + y) z = f x z + f y z) (y : DenseArray α) :
    IsAdditive fun g => g.zipWith f y := by
  constructor
  · intro a b h
    exact h
  · intro a b h k
    rw [entry_zipWith, entry_zipWith, entry_zipWith, extents_plus, ← h, entry_plus h]
    split
    · exact hf _ _ _
    · rw [add_zero]

theorem map (f : α → α) (hf : ∀ x y, f (x + y) = f x + f y) : IsAdditive fun g => g.map f := by
  constructor
  · intro a b h
    exact h
  · intro a b h k
    rw [entry_map, entry_map, entry_map, extents_plus, ← h, entry_plus h]
    split
    · exact hf _ _
    · rw [add_zero]

/-! ## What operations make of a gradient -/

/-- A choice that depends on the extents only. -/
theorem ite (p : Extents → Prop) [DecidablePred p] (hF : IsAdditive F) (hG : IsAdditive G) :
    IsAdditive fun g => if p g.extents then F g else G g := by
  constructor
  · intro a b h
    rw [h]
    split
    · exact hF.extents h
    · exact hG.extents h
  · intro a b h k
    rw [extents_plus, h]
    split
    · exact hF.entry h k
    · exact hG.entry h k

theorem times (x : DenseArray α) (own : Extents) : IsAdditive fun g => g.times x own := by
  have hbroadcast : IsAdditive fun g => broadcastWith g.extents (· * ·) g x := by
    unfold broadcastWith
    apply generate
    · intro a b h
      exact h
    · intro a b h i
      simp only [get_plus h, extents_plus, add_mul, h]
  exact .ite (fun s => s = own ∧ s = x.extents) (.zipWith _ add_mul x) hbroadcast

theorem sumAxis (axis : Nat) : IsAdditive fun g : DenseArray α => g.sumAxis axis := by
  unfold DenseArray.sumAxis
  apply generate
  · intro a b h
    rw [h]
  · intro a b h i
    simp only [extents_plus, ← h, get_plus h, ExactScalar.sumUpTo_add]

theorem insertAxis (axis : Nat) : IsAdditive fun g : DenseArray α => g.insertAxis axis := by
  unfold DenseArray.insertAxis
  apply generate
  · intro a b h
    rw [h]
  · intro a b h i
    exact get_plus h _

theorem sumLeading (n : Nat) : IsAdditive fun g : DenseArray α => g.sumLeading n := by
  induction n with
  | zero => exact .id
  | succ n ih => exact ih.comp (.sumAxis 0)

theorem full (s : Extents) : IsAdditive fun g : DenseArray α => .full s (g.entry 0) := by
  constructor
  · intro a b _
    rfl
  · intro a b h k
    rw [entry_full, entry_full, entry_full, entry_plus h]
    split
    · rfl
    · rw [add_zero]

/-- Entries read at places that do not depend on the values. -/
theorem gather {s : DenseArray α → Extents} (hs : ∀ {a b}, a.extents = b.extents → s a = s b)
    (place : List Nat → List Nat) : IsAdditive fun g => g.gather (s g) place :=
  generate hs fun h _ => get_plus h _

theorem rearrange_window (axis start extent : Nat) :
    IsAdditive fun g : DenseArray α => g.rearrange (.window g.extents axis start extent) :=
  gather (s := fun g => g.extents.set axis extent) (fun h => by rw [h]) _

theorem rowSum_plus (h : a.extents = b.extents) (r : Nat) :
    rowSum ((a.plus b).row r) = rowSum (a.row r) + rowSum (b.row r) := by
  have hwidth : a.width = b.width := by rw [width, width, h]
  have hwidth' : (a.plus b).width = a.width := rfl
  simp only [rowSum, row, ← List.sum_eq_foldl, hwidth', ← hwidth, entry_plus h, List.sum_map_add]

theorem logSoftmaxGradient (y : DenseArray α) : IsAdditive fun g => y.logSoftmaxGradient g := by
  constructor
  · intro a b _
    rfl
  · intro a b h k
    simp only [DenseArray.logSoftmaxGradient, entry_ofFn, Array.getD_eq_getD_getElem?,
      Array.getElem?_ofFn, entry_plus h]
    split
    · split
      · simp only [Option.getD_some, rowSum_plus h]
        ring
      · simp only [Option.getD_none]
        ring
    · rw [add_zero]

/-- A product is additive in the entries of its left factor. -/
theorem product (rows terms columns : Nat) (place : Nat → Nat → List Nat)
    (f : Nat → Nat → α) : IsAdditive fun g => DenseArray.product rows terms columns
      (fun r t => g.get (place r t)) f := by
  unfold DenseArray.product
  apply generate (fun _ => rfl)
  intro a b h i
  simp only [get_plus h, add_mul, ExactScalar.sumUpTo_add]

theorem product_right (rows terms columns : Nat) (f : Nat → Nat → α)
    (place : Nat → Nat → List Nat) : IsAdditive fun g => DenseArray.product rows terms columns f
      fun t c => g.get (place t c) := by
  unfold DenseArray.product
  apply generate (fun _ => rfl)
  intro a b h i
  simp only [get_plus h, mul_add, ExactScalar.sumUpTo_add]

theorem samples {count : Nat} {s : Extents} {part : DenseArray α → Nat → DenseArray α}
    (hpart : ∀ n, IsAdditive fun g => part g n) :
    IsAdditive fun g => Convolution.samples count s (part g) := by
  unfold Convolution.samples
  apply generate (fun _ => rfl)
  intro a b h i
  cases i with
  | nil => exact (add_zero 0).symm
  | cons n l =>
    simp only [Array.getElem?_ofFn]
    by_cases hn : n < count
    · simp only [hn, dif_pos, Option.elim_some]
      exact (hpart n).get h l
    · simp only [hn, dif_neg, not_false_eq_true, Option.elim_none, add_zero]

theorem zeros (s : Extents) : IsAdditive fun _ : DenseArray α => .zeros s := by
  constructor
  · intro a b _
    rfl
  · intro a b _ k
    rw [DenseArray.zeros, entry_full, ite_self, add_zero]

/-- What is additive in both arguments at once. -/
theorem zipWith_both (hF : IsAdditive F) (hG : IsAdditive G) (f : α → α → α)
    (hf : ∀ a b x y, f (a + b) (x + y) = f a x + f b y) :
    IsAdditive fun g => (F g).zipWith f (G g) := by
  constructor
  · intro a b h
    exact hF.extents h
  · intro a b h k
    rw [entry_zipWith, entry_zipWith, entry_zipWith, hF.extents (extents_plus a b), hF.extents h,
      hF.entry h, hG.entry h]
    split
    · exact hf _ _ _ _
    · rw [add_zero]

/-- What is added up for several samples. -/
theorem foldl_zipWith {part : DenseArray α → Nat → DenseArray α} (ns : List Nat)
    (hpart : ∀ n, IsAdditive fun g => part g n) (hF : IsAdditive F) :
    IsAdditive fun g => ns.foldl (fun sum n => sum.zipWith (· + ·) (part g n)) (F g) := by
  induction ns generalizing F with
  | nil => exact hF
  | cons n ns ih => exact ih (hF.zipWith_both (hpart n) (· + ·) add_add_add_comm)

theorem relaid_of_extents {s : DenseArray α → Extents}
    (hs : ∀ {a b}, a.extents = b.extents → s a = s b) : IsAdditive fun g => g.relaid (s g) := by
  refine generate hs fun {a b} h i => ?_
  rw [hs (extents_plus a b), hs h]
  exact entry_plus h _

theorem relaid (s : Extents) : IsAdditive fun g : DenseArray α => g.relaid s :=
  relaid_of_extents fun _ => rfl

theorem swapAxes (axis : Nat) : IsAdditive fun g : DenseArray α => g.swapAxes axis :=
  gather (s := fun g => Extents.swapLast axis g.extents) (fun h => by rw [h]) _

theorem toRows (axis : Nat) : IsAdditive fun g : DenseArray α => g.toRows axis :=
  let s (g : DenseArray α) : Extents :=
    [matrixRows g.extents (g.extents.getLastD 0), g.extents.getLastD 0]
  (relaid_of_extents (s := s) fun h => by simp only [s, h]).comp (.swapAxes axis)

theorem fromRows (s : Extents) (axis : Nat) :
    IsAdditive fun g : DenseArray α => g.fromRows s axis :=
  (IsAdditive.swapAxes axis).comp (.relaid _)

theorem withRow_mul (v : DenseArray α) : IsAdditive fun g => g.withRow (· * ·) v := by
  unfold withRow broadcastWith
  refine generate (fun h => h) fun {a b} h i => ?_
  rw [get_plus h, extents_plus, h]
  exact add_mul _ _ _

theorem mul_withRow (rows : DenseArray α) : IsAdditive fun v => rows.withRow (· * ·) v := by
  unfold withRow broadcastWith
  refine generate (fun _ => rfl) fun {a b} h i => ?_
  rw [get_plus h, extents_plus, h]
  exact mul_add _ _ _

theorem sub_withRow (hF : IsAdditive F) (hG : IsAdditive G) :
    IsAdditive fun g => (F g).withRow (· - ·) (G g) := by
  unfold withRow broadcastWith
  refine generate (s := fun g => (F g).extents) hF.extents fun {a b} h i => ?_
  rw [hF.get h, hG.get h, hF.extents (extents_plus a b), hG.extents (extents_plus a b),
    hF.extents h, hG.extents h]
  ring

theorem meanSquareGradient (out target : DenseArray α) :
    IsAdditive fun g => out.meanSquareGradient target g := by
  constructor
  · intro a b _
    rfl
  · intro a b h k
    simp only [DenseArray.meanSquareGradient, entry_zipWith, sum_plus h]
    split
    · ring
    · rw [add_zero]

theorem crossEntropyGradient (logits targets : DenseArray α) :
    IsAdditive fun g => logits.crossEntropyGradient targets g := by
  constructor
  · intro a b _
    rfl
  · intro a b h k
    simp only [DenseArray.crossEntropyGradient, entry_ofFn, sum_plus h, ExactScalar.add_div]
    split
    · rw [mul_add]
    · rw [add_zero]

end IsAdditive

end DenseArray

open DenseArray (IsAdditive)

theorem Convolution.additive_toInput (c : Convolution) (w : DenseArray α) :
    IsAdditive fun g => c.toInput g w := by
  have hsample (n : Nat) := (IsAdditive.product_right (α := α) c.rows c.filters c.cols
    (fun r f => (w.relaid [c.filters, c.rows]).get [f, r]) fun f j => [n, f, j]).comp
    (.relaid [c.batch, c.filters, c.cols])
  refine (IsAdditive.relaid _).comp (.samples fun n => ?_)
  exact .collect (fun _ => rfl) (fun _ => rfl) (fun _ => rfl) fun h j => (hsample n).get h _

theorem Convolution.additive_toWeight (c : Convolution) (x : DenseArray α) :
    IsAdditive fun g => c.toWeight g x := by
  have hgrads := IsAdditive.relaid (α := α) [c.batch, c.filters, c.cols]
  refine (IsAdditive.relaid _).comp (.foldl_zipWith _ (fun n => ?_) (.zeros _))
  exact (IsAdditive.product _ _ _ (fun f j => [n, f, j]) _).comp hgrads

theorem Convolution.additive_toBias (c : Convolution) :
    IsAdditive fun g : DenseArray α => c.toBias g :=
  (IsAdditive.sumAxis 0).comp ((IsAdditive.sumAxis 2).comp
    (.relaid [c.batch, c.filters, c.cols]))

theorem Normalized.additive_toGamma (n : Normalized α) : IsAdditive fun g => n.toGamma g :=
  (IsAdditive.sumAxis 0).comp ((IsAdditive.zipWith _ add_mul _).comp (.toRows n.axis))

theorem Normalized.additive_toBeta (n : Normalized α) : IsAdditive fun g => n.toBeta g :=
  (IsAdditive.sumAxis 0).comp (.toRows n.axis)

theorem Normalized.additive_toInput (n : Normalized α) : IsAdditive fun g => n.toInput g := by
  have hscaled : IsAdditive fun g : DenseArray α =>
      (g.toRows n.axis).withRow (· * ·) n.scale := (IsAdditive.withRow_mul _).comp (.toRows n.axis)
  have htotal := (IsAdditive.sumAxis 0).comp hscaled
  have hmoment := (IsAdditive.sumAxis 0).comp
    ((IsAdditive.zipWith _ add_mul n.standard).comp hscaled)
  have hcounted := (IsAdditive.map (· * n.count) fun x y => add_mul x y n.count).comp hscaled
  have hrest := (hcounted.sub_withRow htotal).zipWith_both
    ((IsAdditive.mul_withRow n.standard).comp hmoment) (· - ·) add_sub_add_comm
  have hdivided := IsAdditive.map (· / n.count) fun x y => ExactScalar.add_div x y n.count
  unfold Normalized.toInput
  dsimp only
  split
  · exact (IsAdditive.fromRows _ _).comp (hdivided.comp ((IsAdditive.withRow_mul _).comp hrest))
  · exact (IsAdditive.fromRows _ _).comp ((IsAdditive.withRow_mul _).comp hscaled)

namespace Operation

/-- The third is the sum of the first two, or all of them are the same failure. -/
inductive Sums : (x y sum : Except Error (DenseArray α)) → Prop
  | error (e : Error) : Sums (.error e) (.error e) (.error e)
  | ok {a b : DenseArray α} (h : a.extents = b.extents) : Sums (.ok a) (.ok b) (.ok (a.plus b))

/-- On arrays of equal extents the map fails for both or for none of them, and gives the sum for the
sum. -/
structure Additive (P : DenseArray α → Except Error (DenseArray α)) : Prop where
  sums : ∀ {a b}, a.extents = b.extents → Sums (P a) (P b) (P (a.plus b))

namespace Additive

variable {P Q : DenseArray α → Except Error (DenseArray α)} {F : DenseArray α → DenseArray α}

theorem ok (hF : IsAdditive F) : Additive fun g => .ok (F g) := by
  constructor
  intro a b h
  rw [hF.plus h]
  exact .ok (hF.extents h)

/-- Whether the map fails depends on the extents of its argument, and so do those of its result. -/
theorem ok_of_extents {x : DenseArray α} (hP : Additive P) (h : a.extents = b.extents)
    (ha : P a = .ok x) : ∃ y, P b = .ok y ∧ y.extents = x.extents := by
  have hsums := hP.sums h
  rw [ha] at hsums
  generalize P b = z at hsums ⊢
  generalize P (a.plus b) = sum at hsums
  cases hsums with
  | ok hextents => exact ⟨_, rfl, hextents.symm⟩

theorem comp (hP : Additive P) (hF : IsAdditive F) : Additive fun g => P (F g) := by
  constructor
  intro a b h
  rw [hF.plus h]
  exact hP.sums (hF.extents h)

theorem bind (hP : Additive P) (hQ : Additive Q) : Additive fun g => P g >>= Q := by
  constructor
  intro a b h
  have hsums := hP.sums h
  generalize P a = x at hsums ⊢
  generalize P b = y at hsums ⊢
  generalize P (a.plus b) = z at hsums ⊢
  cases hsums with
  | error e => exact .error e
  | ok h => exact hQ.sums h

/-- Whether axes can be summed along depends on the extents. -/
theorem sumUnits_plus (target : Extents) (axis : Nat) (h : a.extents = b.extents) :
    (DenseArray.sumUnits target axis a = none ∧ DenseArray.sumUnits target axis b = none ∧
      DenseArray.sumUnits target axis (a.plus b) = none) ∨
    ∃ x y, DenseArray.sumUnits target axis a = some x ∧ DenseArray.sumUnits target axis b = some y ∧
      x.extents = y.extents ∧ DenseArray.sumUnits target axis (a.plus b) = some (x.plus y) := by
  induction target generalizing axis a b with
  | nil => exact .inr ⟨a, b, rfl, rfl, h, rfl⟩
  | cons t target ih =>
    have hunit := (IsAdditive.insertAxis axis).comp (.sumAxis axis) (α := α)
    simp only [DenseArray.sumUnits, DenseArray.extents_plus, ← h]
    split
    · split
      · rw [hunit.plus h]
        exact ih (axis + 1) (hunit.extents h)
      · split
        · exact ih (axis + 1) h
        · exact .inl ⟨rfl, rfl, rfl⟩
    · exact .inl ⟨rfl, rfl, rfl⟩

theorem reduceTo (target : Extents) : Additive fun g : DenseArray α => g.reduceTo target := by
  constructor
  intro a b h
  have hleading := IsAdditive.sumLeading (α := α) (a.rank - target.length)
  have hrank : a.rank = b.rank := congrArg List.length h
  have hrank' : (a.plus b).rank = b.rank := hrank
  unfold DenseArray.reduceTo
  rw [DenseArray.extents_plus, ← h, hrank', ← hrank, hleading.plus h]
  split
  · exact .ok h
  · obtain ⟨ha, hb, hsum⟩ | ⟨x, y, ha, hb, hextents, hsum⟩ :=
      sumUnits_plus target 0 (hleading.extents h)
    · rw [ha, hb, hsum]
      exact .error _
    · rw [ha, hb, hsum]
      exact .ok hextents

theorem regroup (s : Extents) : Additive fun g : DenseArray α => g.regroup s := by
  constructor
  intro a b h
  by_cases hsize : a.extents.size = s.size
  · obtain ⟨x, hx, hextents, hentry⟩ := DenseArray.exists_regroup hsize
    obtain ⟨y, hy, hextents', hentry'⟩ := DenseArray.exists_regroup (a := b) (h ▸ hsize)
    obtain ⟨z, hz, hextents'', hentry''⟩ := DenseArray.exists_regroup (a := a.plus b) hsize
    have hsame := hextents.trans hextents'.symm
    obtain rfl : z = x.plus y := by
      refine DenseArray.ext_entry (hextents''.trans hextents.symm) fun p => ?_
      rw [hentry'', DenseArray.entry_plus h, DenseArray.entry_plus hsame, hentry, hentry']
    rw [hx, hy, hz]
    exact .ok hsame
  · rw [DenseArray.regroup_error hsize, DenseArray.regroup_error (h ▸ hsize),
      DenseArray.regroup_error (a := a.plus b) hsize]
    exact .error _

theorem bringBack (source : Extents) (back : WayBack) :
    Additive fun g : DenseArray α => g.bringBack source back := by
  cases back with
  | regroup => exact .regroup source
  | permute axes => exact .ok (.gather (fun h => by rw [h]) _)
  | select axis index =>
    refine .ok (.generate (fun _ => rfl) fun {a b} h i => ?_)
    split
    · exact DenseArray.get_plus h _
    · rw [add_zero]
  | window axis start stop =>
    refine .ok (.generate (fun _ => rfl) fun {a b} h i => ?_)
    dsimp only
    split
    · exact DenseArray.get_plus h _
    · rw [add_zero]
  | rows ids width =>
    exact (Additive.regroup _).bind
      (.ok (.collect (fun _ => rfl) (fun _ => rfl) (fun _ => rfl) DenseArray.entry_plus))

theorem contractLeft (x y : DenseArray α) : Additive fun g => g.contractLeft x y :=
  (Additive.regroup _).bind ((Additive.regroup _).comp (.product _ _ _ (fun r t => [r, t]) _))

theorem contractRight (x y : DenseArray α) : Additive fun g => g.contractRight x y := by
  refine (Additive.regroup _).bind ?_
  constructor
  intro a b h
  cases x.regroup [DenseArray.matrixRows x.extents (y.extents.getLastD 0), y.extents.getLastD 0] with
  | error e => exact .error e
  | ok left => exact (Additive.ok (.product _ _ _ (fun r t => [t, r]) _)).sums h

end Additive

/-- What an operation does with a gradient is additive, whichever input it is for. -/
theorem pullback_additive (value : Tensor → DenseArray α) (op : Operation α) (position : Nat) :
    Additive (op.pullback value position) := by
  cases op with
  | add a b =>
    cases position with
    | zero => exact .reduceTo _
    | succ n => exact .reduceTo _
  | sub a b =>
    cases position with
    | zero => exact .reduceTo _
    | succ n => exact (Additive.reduceTo _).comp (.map _ fun x y => neg_add x y)
  | mul a b =>
    cases position with
    | zero => exact (Additive.reduceTo _).comp (.times _ _)
    | succ n => exact (Additive.reduceTo _).comp (.times _ _)
  | scale a factor => exact .ok (.map _ fun x y => add_mul x y factor)
  | sum a => exact .ok (.full _)
  | relu a =>
    refine .ok (.zipWith _ ?_ _)
    intro x y z
    split
    · rw [add_zero]
    · rfl
  | sigmoid a y =>
    refine .ok (.zipWith _ ?_ _)
    intro x x' z
    ring
  | tanh a y =>
    refine .ok (.zipWith _ ?_ _)
    intro x x' z
    ring
  | logSoftmax a y => exact .ok (.logSoftmaxGradient y)
  | rearrange a source r => exact .bringBack source r.back
  | concat parts axis lengths => exact .ok (.rearrange_window _ _ _)
  | matmul a b left right =>
    cases position with
    | zero => exact .contractLeft _ _
    | succ n => exact .contractRight _ _
  | convolve x w bias c input weight =>
    match position with
    | 0 => exact .ok (c.additive_toInput _)
    | 1 => exact .ok (c.additive_toWeight _)
    | n + 2 => exact .ok c.additive_toBias
  | normalize x gamma beta n =>
    match position with
    | 0 => exact .ok n.additive_toInput
    | 1 => exact .ok n.additive_toGamma
    | k + 2 => exact .ok n.additive_toBeta
  | mask a m => exact .ok (.zipWith _ add_mul _)
  | meanSquare a out target => exact .ok (.meanSquareGradient _ _)
  | crossEntropy a logits targets => exact .ok (.crossEntropyGradient _ _)

end Operation

end NeuralNet
