import Mathlib.Algebra.BigOperators.Field
import Mathlib.Algebra.Field.GeomSum
import Mathlib.Data.List.GetD
import NeuralNet.Proofs.DenseArray.Sums
import NeuralNet.Proofs.Optimizer.Repeats

/-!
# Moments of gradients

A moment is a sum over the gradients that a parameter has followed, in which a gradient counts less
with every later one. Steps that the parameter sat out do not show in it.

* `run_sgd_closed`: where a run with momentum leaves a parameter;
* `run_adam_weighted`: the weights of the gradients in the corrected moments;
* `run_adam_after_pause`: they do not add up to 1 after a step that was sat out.
-/

namespace NeuralNet

open Finset (range)

/-! ## Sums that decay -/

section Decayed

variable {α : Type} [CommRing α] (b : α) (xs : List α) (x : α)

/-- The sum of the first numbers of a list, each of which counts `b` times as much as the next. -/
def decayed (n : Nat) : α := ∑ j ∈ range n, b ^ (n - 1 - j) * xs.getD j 0

theorem decayed_append {n : Nat} (h : n ≤ xs.length) :
    decayed b (xs ++ [x]) n = decayed b xs n := by
  apply Finset.sum_congr rfl
  intro j hj
  rw [List.getD_append _ _ _ _ (Nat.lt_of_lt_of_le (Finset.mem_range.mp hj) h)]

theorem decayed_concat :
    decayed b (xs ++ [x]) (xs.length + 1) = b * decayed b xs xs.length + x := by
  have hlast : (xs ++ [x]).getD xs.length 0 = x := by simp
  rw [decayed, Finset.sum_range_succ, hlast, Nat.add_sub_cancel, Nat.sub_self, pow_zero, one_mul,
    decayed, Finset.mul_sum]
  congr 1
  apply Finset.sum_congr rfl
  intro j hj
  have hj := Finset.mem_range.mp hj
  have hexponent : xs.length - j = xs.length - 1 - j + 1 := by omega
  rw [List.getD_append _ _ _ _ hj, hexponent, pow_succ', mul_assoc]

/-- Every such sum, up to the last one. -/
def accumulated : α := ∑ n ∈ range xs.length, decayed b xs (n + 1)

theorem accumulated_concat :
    accumulated b (xs ++ [x]) = accumulated b xs + (b * decayed b xs xs.length + x) := by
  rw [accumulated, List.length_append, List.length_singleton, Finset.sum_range_succ, decayed_concat,
    accumulated]
  congr 1
  apply Finset.sum_congr rfl
  intro n hn
  exact decayed_append b xs x (Finset.mem_range.mp hn)

end Decayed

theorem ExactScalar.powAux_eq {α : Type} [ExactScalar α] (n : Nat) (a acc : α) :
    Scalar.powAux n a acc = acc * a ^ n := by
  induction n using Nat.strongRecOn generalizing a acc with
  | ind n ih =>
    -- the odd factor that is collected, and the square
    have hodd : (if n % 2 = 1 then acc * a else acc) = acc * a ^ (n % 2) := by
      rcases Nat.mod_two_eq_zero_or_one n with h | h
      · rw [h, if_neg Nat.zero_ne_one, pow_zero, mul_one]
      · rw [h, if_pos rfl, pow_one]
    have hpow : a ^ n = a ^ (n % 2) * (a * a) ^ (n / 2) := by
      rw [← pow_two, ← pow_mul, ← pow_add, Nat.mod_add_div]
    rw [Scalar.powAux, hpow, ← mul_assoc, ← hodd]
    split
    · rename_i hhalf
      rw [hhalf, pow_zero, mul_one]
    · exact ih (n / 2) (by omega) _ _

/-- Squaring again and again makes powers. -/
theorem ExactScalar.pow_eq {α : Type} [ExactScalar α] (a : α) (n : Nat) :
    Scalar.pow a n = a ^ n := by
  rw [Scalar.pow, powAux_eq, one_mul]

theorem DenseArray.zipWith_map {α : Type} [Zero α] (f f' : α → α) (op : α → α → α)
    {a b : DenseArray α} (hextents : a.extents = b.extents) :
    (a.map f).zipWith op (b.map f') = a.zipWith (fun x y => op (f x) (f' y)) b := by
  refine ext_entry rfl fun k => ?_
  rw [entry_zipWith, entry_zipWith, extents_map, entry_map, entry_map, ← hextents]
  by_cases hk : k < a.extents.size
  · simp only [if_pos hk]
  · simp only [if_neg hk]

namespace Optimizer

variable {α : Type} {settings : OptimizerSettings} {steps : Nat} {t : Tracked α} {p : Slot α}
  {s : Situation α} {i : Nat} {k : List Nat} {e : Extents} {situations : List (Situation α)}
  {g : DenseArray α} {x : Option (DenseArray α)}

/-- The entries at an index of the gradients that a parameter follows in a run, in their order. -/
def followed [Zero α] (situations : List (Situation α)) (i : Nat) (k : List Nat) : List α :=
  (situations.filterMap (·.pull i)).map (·.get k)

theorem followed_concat_none [Zero α] (h : s.pull i = none) :
    followed (situations ++ [s]) i k = followed situations i k := by
  simp [followed, h]

theorem followed_concat [Zero α] (h : s.pull i = some g) :
    followed (situations ++ [s]) i k = followed situations i k ++ [g.get k] := by
  simp [followed, h]

/-! ## One step more -/

section Scalar

theorem slot_start (i : Nat) : (start i : Tracked α).slot = i := rfl

variable [Scalar α]

theorem keptMoments_concat (s : Situation α) (situations : List (Situation α)) (t : Tracked α) :
    keptMoments settings i steps (situations ++ [s]) t =
      moved settings (steps + situations.length + 1)
        (keptMoments settings i steps situations t) (s.pull i) := by
  induction situations generalizing steps t with
  | nil => rfl
  | cons r situations ih =>
    have hsteps : steps + 1 + situations.length = steps + (situations.length + 1) := by omega
    rw [List.cons_append, keptMoments, ih, keptMoments, List.length_cons, hsteps]

theorem course_concat {times : Nat} (s : Situation α) (situations : List (Situation α))
    (t : Tracked α) (p : Slot α) : course settings i times steps (situations ++ [s]) t p =
      (visit settings (steps + situations.length + 1)
        (keptMoments settings i steps situations t))^[times]
        ((course settings i times steps situations t p).under s i) := by
  induction situations generalizing steps t p with
  | nil => rfl
  | cons r situations ih =>
    have hsteps : steps + 1 + situations.length = steps + (situations.length + 1) := by omega
    rw [List.cons_append, course, ih, course, keptMoments, List.length_cons, hsteps]

variable (settings steps t) in
theorem content_visit {c : Content α} (hc : p.content = some c) (hpull : p.pull = some g) :
    (visit settings steps t p).content =
      some { c with data := Content.quantized c.type (update settings steps t c.data g).2 } := by
  rw [visit, hpull]
  dsimp only
  rw [hc, Option.map_some]

omit [Scalar α] in
theorem content_under {c : Content α} (hc : p.content = some c) :
    (p.under s i).content = some { c with grad := s.grad i } := by
  rw [Slot.under, hc, Option.map_some]

variable (settings steps t) in
theorem content_iterate {n : Nat} {c : Content α} (hc : p.content = some c)
    (hpull : p.pull = some g) :
    ((visit settings steps t)^[n] p).content = some { c with data :=
      (fun data => Content.quantized c.type (update settings steps t data g).2)^[n] c.data } := by
  induction n with
  | zero => exact hc
  | succ n ih =>
    rw [Function.iterate_succ_apply', content_visit _ _ _ ih ((pull_iterate_visit n p).trans hpull),
      Function.iterate_succ_apply']

theorem isResolved_course {times : Nat} (h : p.isResolved = true) :
    (course settings i times steps situations t p).isResolved = true := by
  induction situations generalizing steps t p with
  | nil => exact h
  | cons s rest ih =>
    rw [course]
    apply ih
    rwa [isResolved_iterate_visit, Slot.isResolved_under]

/-- What the last step of a run makes of a parameter that follows a gradient in it. -/
theorem content_course_concat {times : Nat} {c : Content α}
    (hc : (course settings i times 0 situations (start i) p).content = some c)
    (hg : s.pull i = some g) :
    (course settings i times 0 (situations ++ [s]) (start i) p).content = some { c with
      grad := s.grad i
      data := (fun data => Content.quantized c.type (update settings (situations.length + 1)
        (keptMoments settings i 0 situations (start i)) data g).2)^[times] c.data } := by
  have hresolved := Option.isSome_iff_exists.mpr ⟨c, hc⟩
  have hunder := content_under (s := s) (i := i) hc
  have hpull := (Slot.pull_under (s := s) (i := i) hresolved).trans hg
  rw [course_concat, Nat.zero_add]
  exact content_iterate settings _ _ hunder hpull

end Scalar

/-- An entry of a moment. One that is not kept yet is 0. -/
def heldAt [Zero α] (x : Option (DenseArray α)) (k : List Nat) : α := x.elim 0 (·.get k)

/-- A gradient is blended into a moment entry by entry. -/
theorem get_blend [Zero α] (f : α → α → α) (hx : ∀ a ∈ x, a.extents = e) (hg : g.extents = e)
    (hk : e.Contains k) : ((x.getD (.zeros g.extents)).zipWith f g).get k =
      f (heldAt x k) (g.get k) := by
  cases x with
  | none =>
    rw [Option.getD_none, DenseArray.get_zipWith f (hg ▸ rfl) hg hk, hg]
    exact congrArg (f · _) (DenseArray.get_full 0 hk)
  | some a => exact DenseArray.get_zipWith f (hx a rfl) hg hk

theorem extents_blend [Zero α] (f : α → α → α) (hx : ∀ a ∈ x, a.extents = e) (hg : g.extents = e) :
    ((x.getD (.zeros g.extents)).zipWith f g).extents = e := by
  cases x with
  | none => exact hg
  | some a => exact hx a rfl

/-! ## Momentum -/

section Momentum

variable [ExactScalar α] {learningRate momentum : Single} {data : DenseArray α}

variable (steps learningRate) in
/-- One update. Without momentum no velocity is kept, and none would show. -/
theorem update_sgd (hzero : momentum.eqv .zero = true → (Scalar.ofSingle momentum : α) = 0)
    (hx : ∀ a ∈ t.first, a.extents = e) (hg : g.extents = e) (hdata : data.extents = e) :
    let m : α := Scalar.ofSingle momentum
    let rate : α := Scalar.ofSingle learningRate
    let after := update (.sgd learningRate momentum) steps t data g
    (∀ a ∈ after.1.first, a.extents = e) ∧ after.2.extents = e ∧ ∀ k, e.Contains k →
      m * heldAt after.1.first k = m * (m * heldAt t.first k + g.get k) ∧
      after.2.get k = data.get k - rate * (m * heldAt t.first k + g.get k) := by
  intro m rate after
  by_cases hm : momentum.eqv .zero = true
  · have hafter : after = (t, descend rate data g) := by
      simp only [after, update, if_pos hm, rate]
    have hm : m = 0 := hzero hm
    rw [hafter]
    refine ⟨hx, hdata, fun k hk => ⟨?_, ?_⟩⟩
    · rw [hm, zero_mul, zero_mul]
    · rw [hm, zero_mul, zero_add]
      exact DenseArray.get_zipWith _ hdata hg hk
  · let blended := (t.first.getD (.zeros g.extents)).zipWith (fun v d => m * v + d) g
    have hafter : after = (⟨t.slot, some blended, t.second⟩, descend rate data blended) := by
      simp only [after, update, if_neg hm, rate, blended, m]
    have hextents : blended.extents = e := extents_blend _ hx hg
    rw [hafter]
    refine ⟨fun a ha => ?_, hdata, fun k hk => ?_⟩
    · cases ha
      exact hextents
    · have hblended : blended.get k = m * heldAt t.first k + g.get k := get_blend _ hx hg hk
      rw [← hblended]
      exact ⟨rfl, DenseArray.get_zipWith _ hdata hextents hk⟩

variable (learningRate) in
/-- Whatever the parameter sat out, the velocity is the decayed sum of what it followed. -/
theorem kept_sgd (hzero : momentum.eqv .zero = true → (Scalar.ofSingle momentum : α) = 0)
    (h : ∀ s ∈ situations, ∀ g, s.pull i = some g → g.extents = e) :
    let m : α := Scalar.ofSingle momentum
    let t := keptMoments (.sgd learningRate momentum) i 0 situations (start i)
    (∀ a ∈ t.first, a.extents = e) ∧ ∀ k, e.Contains k →
      let xs := followed situations i k
      m * heldAt t.first k = m * decayed m xs xs.length := by
  intro m t
  induction situations using List.reverseRecOn with
  | nil =>
    refine ⟨fun a ha => ?_, fun k _ => ?_⟩
    · cases ha
    · change m * (0 : α) = m * decayed m [] 0
      rw [decayed, Finset.sum_range_zero]
  | append_singleton situations s ih =>
    obtain ⟨hx, hheld⟩ := ih fun s hs => h s (List.mem_append_left _ hs)
    have hlast := h s (by simp)
    simp only [t, keptMoments_concat]
    cases hpull : s.pull i with
    | none =>
      refine ⟨hx, fun k hk => ?_⟩
      rw [followed_concat_none hpull]
      exact hheld k hk
    | some g =>
      obtain ⟨hx', -, hentry⟩ := update_sgd (0 + situations.length + 1) learningRate hzero hx
        (hlast g hpull) (hlast g hpull)
      refine ⟨hx', fun k hk => ?_⟩
      rw [followed_concat hpull, List.length_append, List.length_singleton, decayed_concat,
        ← hheld k hk]
      exact (hentry k hk).1

/-- The course of a parameter of a wide type. -/
theorem course_sgd {c : Content α}
    (hzero : momentum.eqv .zero = true → (Scalar.ofSingle momentum : α) = 0)
    (hc : p.content = some c) (htype : c.type = .float32 ∨ c.type = .float64)
    (h : ∀ s ∈ situations, ∀ g, s.pull i = some g → g.extents = c.data.extents) :
    ∃ c', (course (.sgd learningRate momentum) i 1 0 situations (start i) p).content = some c' ∧
      c'.type = c.type ∧ c'.data.extents = c.data.extents ∧
      ∀ k, c.data.extents.Contains k → c'.data.get k = c.data.get k -
        Scalar.ofSingle learningRate *
          accumulated (Scalar.ofSingle momentum) (followed situations i k) := by
  induction situations using List.reverseRecOn with
  | nil =>
    refine ⟨c, hc, rfl, rfl, fun k _ => ?_⟩
    rw [accumulated]
    simp [followed]
  | append_singleton situations s ih =>
    have hbefore : ∀ s ∈ situations, ∀ g, s.pull i = some g → g.extents = c.data.extents :=
      fun s hs => h s (List.mem_append_left _ hs)
    have hlast := h s (by simp)
    obtain ⟨c', hc', htype', hextents', hentry'⟩ := ih hbefore
    obtain ⟨hx, hheld⟩ := kept_sgd learningRate hzero hbefore
    cases hg : s.pull i with
    | none =>
      have hresolved := Option.isSome_iff_exists.mpr ⟨c', hc'⟩
      refine ⟨{ c' with grad := s.grad i }, ?_, htype', hextents', fun k hk => ?_⟩
      · rw [course_concat, Function.iterate_one, visit,
          (Slot.pull_under (s := s) (i := i) hresolved).trans hg]
        exact content_under hc'
      · rw [followed_concat_none hg]
        exact hentry' k hk
    | some g =>
      obtain ⟨-, hextents, hentry⟩ := update_sgd (situations.length + 1) learningRate hzero hx
        (hlast g hg) hextents'
      refine ⟨_, content_course_concat hc' hg, htype', ?_, fun k hk => ?_⟩
      · rw [Function.iterate_one, quantized_of_wide (htype' ▸ htype)]
        exact hextents
      · rw [Function.iterate_one, quantized_of_wide (htype' ▸ htype), followed_concat hg,
          accumulated_concat, ← hheld k hk]
        refine (hentry k hk).2.trans ?_
        rw [hentry' k hk]
        ring

/-- Where a run with momentum leaves parameters that are listed once, and of a type that holds every
value: at every index, the first value less the learning rate times the sum of the velocities over
the updates. A gradient that was followed counts in a velocity with a power of the momentum. Neither
the other parameters nor the steps that a parameter sat out make a difference. -/
theorem run_sgd_closed (learningRate momentum : Single)
    (hzero : momentum.eqv .zero = true → (Scalar.ofSingle momentum : α) = 0) {slots : List Nat}
    (hslots : slots.Nodup) {w : Workspace α} (h : ∀ i ∈ slots, (w.slot i).isResolved = true)
    (situations : List (Situation α)) :
    let m : α := Scalar.ofSingle momentum
    let rate : α := Scalar.ofSingle learningRate
    ∃ o w', run situations (fresh (.sgd learningRate momentum) slots) w = (.ok (), o, w') ∧
      ∀ i ∈ slots, ∀ c, (w.slot i).content = some c → (c.type = .float32 ∨ c.type = .float64) →
        (∀ s ∈ situations, ∀ g, s.pull i = some g → g.extents = c.data.extents) →
        ∃ c', (w'.slot i).content = some c' ∧ c'.type = c.type ∧ c'.data.extents = c.data.extents ∧
          ∀ k, c.data.extents.Contains k →
            let xs := followed situations i k
            c'.data.get k = c.data.get k -
              rate * ∑ n ∈ range xs.length, ∑ j ∈ range (n + 1), m ^ (n - j) * xs.getD j 0 := by
  intro m rate
  have hrun := run_eq (.sgd learningRate momentum) 0 slot_start situations h
  refine ⟨_, _, hrun, fun i hi c hc htype hextents => ?_⟩
  rw [Workspace.slot_mapSlots (w.lt_size_of_isResolved (h i hi)),
    List.count_eq_one_of_mem hslots hi]
  exact course_sgd hzero hc htype hextents

end Momentum

/-- A parameter is frozen for one step of three, another one is not. -/
theorem run_sgd_closed_pause :
    let p : Slot ℚ := ⟨"weight", .weight, true, none, some ⟨.float32, .ofVector [0], none, true⟩⟩
    let w : Workspace ℚ := { Workspace.seeded 0 with slots := #[p, p] }
    let s : Situation ℚ := ⟨fun _ => true, fun _ => some (.ofVector [1])⟩
    let pause : Situation ℚ := { s with trainable := (· == 1) }
    let half := Single.ofDecimal false ⟨5, -1⟩
    ∃ o w', run [s, pause, s] (fresh (.sgd .one half) [0, 1]) w = (.ok (), o, w') ∧
      ∃ c, (w'.slot 0).content = some c ∧ c.data.get [0] = -5 / 2 := by
  intro p w s pause half
  have hslots : [0, 1].Nodup := by decide
  obtain ⟨o, w', hrun, hvalues⟩ := run_sgd_closed (α := ℚ) .one half (by decide +kernel) hslots
    (w := w) (by decide) [s, pause, s]
  obtain ⟨c, hc, -, -, hentry⟩ := hvalues 0 (by decide) _ rfl (.inl rfl) (by decide +kernel)
  refine ⟨o, w', hrun, c, hc, ?_⟩
  rw [hentry [0] (by decide)]
  decide +kernel

/-! ## Corrected moments -/

section Adam

variable [ExactField α] {learningRate beta1 beta2 epsilon : Single} {data : DenseArray α}

/-- What number `j` of some gradients counts in their moment, corrected for a number of steps. -/
def correctedWeight (b : α) (steps count j : Nat) : α :=
  (1 - b) * b ^ (count - 1 - j) / (1 - b ^ steps)

theorem sum_correctedWeight (b : α) (steps count : Nat) :
    ∑ j ∈ range count, correctedWeight b steps count j = (1 - b ^ count) / (1 - b ^ steps) := by
  have hreflect := Finset.sum_range_reflect (fun j => b ^ j) count
  simp only [correctedWeight]
  rw [← Finset.sum_div, ← Finset.mul_sum, hreflect, mul_neg_geom_sum]

theorem corrected_eq_sum (b : α) (steps : Nat) (xs : List α) (y : Nat → α)
    (hy : ∀ j, xs.getD j 0 = y j) : (1 - b) * decayed b xs xs.length / (1 - b ^ steps) =
      ∑ j ∈ range xs.length, correctedWeight b steps xs.length j * y j := by
  rw [decayed, Finset.mul_sum, Finset.sum_div]
  apply Finset.sum_congr rfl
  intro j _
  rw [hy, correctedWeight]
  ring

variable (learningRate beta1 beta2 epsilon) in
/-- Whatever the parameter sat out, its moments are decayed sums of what it followed. -/
theorem kept_adam (h : ∀ s ∈ situations, ∀ g, s.pull i = some g → g.extents = e) :
    let b₁ : α := Scalar.ofSingle beta1
    let b₂ : α := Scalar.ofSingle beta2
    let t := keptMoments (.adam learningRate beta1 beta2 epsilon) i 0 situations (start i)
    (∀ a ∈ t.first, a.extents = e) ∧ (∀ a ∈ t.second, a.extents = e) ∧ ∀ k, e.Contains k →
      let xs := followed situations i k
      heldAt t.first k = (1 - b₁) * decayed b₁ xs xs.length ∧
      heldAt t.second k = (1 - b₂) * decayed b₂ (xs.map (· ^ 2)) xs.length := by
  intro b₁ b₂ t
  induction situations using List.reverseRecOn with
  | nil =>
    refine ⟨nofun, nofun, fun k _ => ⟨?_, ?_⟩⟩
    · exact (mul_zero _).symm
    · exact (mul_zero _).symm
  | append_singleton situations s ih =>
    obtain ⟨hx, hy, hheld⟩ := ih fun s hs => h s (List.mem_append_left _ hs)
    have hlast := h s (by simp)
    simp only [t, keptMoments_concat]
    cases hpull : s.pull i with
    | none =>
      refine ⟨hx, hy, fun k hk => ?_⟩
      rw [followed_concat_none hpull]
      exact hheld k hk
    | some g =>
      have hg := hlast g hpull
      refine ⟨?_, ?_, fun k hk => ?_⟩
      · rintro a ⟨⟩
        exact extents_blend _ hx hg
      · rintro a ⟨⟩
        exact extents_blend _ hy hg
      · obtain ⟨hfirst, hsecond⟩ := hheld k hk
        have hlen : (followed situations i k).length =
            ((followed situations i k).map (· ^ 2)).length := (List.length_map _).symm
        rw [followed_concat hpull, List.length_append, List.length_singleton, List.map_append,
          List.map_singleton]
        constructor
        · refine (get_blend (fun m d => b₁ * m + (1 - b₁) * d) hx hg hk).trans ?_
          rw [decayed_concat, hfirst]
          ring
        · refine (get_blend (fun v d => b₂ * v + (1 - b₂) * d * d) hy hg hk).trans ?_
          rw [hsecond, hlen, decayed_concat]
          ring

variable (learningRate beta1 beta2 epsilon) in
/-- Every visit of a step moves the values in the same direction, which is taken from the corrected
moments. -/
theorem exists_corrected (h : ∀ r ∈ situations ++ [s], ∀ g, r.pull i = some g → g.extents = e)
    (hg : s.pull i = some g) :
    let settings : OptimizerSettings := .adam learningRate beta1 beta2 epsilon
    let steps := situations.length + 1
    ∃ mHat vHat : DenseArray α, mHat.extents = e ∧ vHat.extents = e ∧
      (∀ data, (update settings steps (keptMoments settings i 0 situations (start i)) data g).2 =
        descend (Scalar.ofSingle learningRate) data
          (mHat.zipWith (fun m v => m / (Scalar.sqrt v + Scalar.ofSingle epsilon)) vHat)) ∧
      ∀ k, e.Contains k →
        let xs := followed (situations ++ [s]) i k
        mHat.get k = ∑ j ∈ range xs.length,
          correctedWeight (Scalar.ofSingle beta1) steps xs.length j * xs.getD j 0 ∧
        vHat.get k = ∑ j ∈ range xs.length,
          correctedWeight (Scalar.ofSingle beta2) steps xs.length j * xs.getD j 0 ^ 2 := by
  intro settings steps
  obtain ⟨hx, hy, hheld⟩ := kept_adam learningRate beta1 beta2 epsilon h
  rw [keptMoments_concat, hg, Nat.zero_add] at hx hy hheld
  let t : Tracked α := keptMoments settings i 0 situations (start i)
  let b₁ : α := Scalar.ofSingle beta1
  let b₂ : α := Scalar.ofSingle beta2
  let first := (t.first.getD (.zeros g.extents)).zipWith (fun m d => b₁ * m + (1 - b₁) * d) g
  let second := (t.second.getD (.zeros g.extents)).zipWith (fun v d => b₂ * v + (1 - b₂) * d * d) g
  have hfirst : first.extents = e := hx first rfl
  have hsecond : second.extents = e := hy second rfl
  refine ⟨first.map (· / (1 - Scalar.pow b₁ steps)), second.map (· / (1 - Scalar.pow b₂ steps)),
    hfirst, hsecond, fun data => ?_, fun k hk => ?_⟩
  · rw [DenseArray.zipWith_map _ _ _ (hfirst.trans hsecond.symm)]
    rfl
  · intro xs
    have hsquares : ∀ j, (xs.map (· ^ 2)).getD j 0 = xs.getD j 0 ^ 2 := fun j => by
      have hget := List.getD_map (l := xs) (n := j) (d := 0) (f := fun x : α => x ^ 2)
      rwa [zero_pow two_ne_zero] at hget
    have hlen : (xs.map (· ^ 2)).length = xs.length := List.length_map _
    obtain ⟨hheld₁, hheld₂⟩ := hheld k hk
    have hheld₁ : first.get k = (1 - b₁) * decayed b₁ xs xs.length := hheld₁
    have hheld₂ : second.get k = (1 - b₂) * decayed b₂ (xs.map (· ^ 2)) xs.length := hheld₂
    constructor
    · rw [DenseArray.get_map _ (hfirst ▸ hk), hheld₁, ExactScalar.pow_eq,
        corrected_eq_sum b₁ steps xs _ fun _ => rfl]
    · rw [DenseArray.get_map _ (hsecond ▸ hk), hheld₂, ExactScalar.pow_eq, ← hlen,
        corrected_eq_sum b₂ steps _ _ hsquares]

/-- Every update of a parameter, at any step of a run: the corrected moments are sums over the
gradients that it has followed, the last one included, and over their squares. The correction is for
the steps of the run, not for the updates of the parameter, so that the weights do not in general
add up to 1; they do for a parameter that has followed a gradient in every step. -/
theorem run_adam_weighted (learningRate beta1 beta2 epsilon : Single) {slots : List Nat}
    {w : Workspace α} (h : ∀ i ∈ slots, (w.slot i).isResolved = true) {i : Nat} (hi : i ∈ slots)
    {before : List (Situation α)} {s : Situation α} {g : DenseArray α} (hg : s.pull i = some g)
    (hextents : ∀ r ∈ before ++ [s], ∀ a, r.pull i = some a →
      a.extents = (w.value (.weight i)).extents) :
    let settings : OptimizerSettings := .adam learningRate beta1 beta2 epsilon
    let steps := before.length + 1
    let count := ((before ++ [s]).filterMap (·.pull i)).length
    ∃ (o₁ o₂ : Optimizer α) (w₁ w₂ : Workspace α) (c₁ c₂ : Content α) (mHat vHat : DenseArray α),
      run before (fresh settings slots) w = (.ok (), o₁, w₁) ∧
      run (before ++ [s]) (fresh settings slots) w = (.ok (), o₂, w₂) ∧
      (w₁.slot i).content = some c₁ ∧ (w₂.slot i).content = some c₂ ∧
      c₂.data = (fun data => Content.quantized c₁.type (descend (Scalar.ofSingle learningRate) data
          (mHat.zipWith (fun m v => m / (Scalar.sqrt v + Scalar.ofSingle epsilon))
            vHat)))^[slots.count i] c₁.data ∧
      (∀ k, (w.value (.weight i)).extents.Contains k →
        mHat.get k = ∑ j ∈ range count, correctedWeight (Scalar.ofSingle beta1) steps count j *
          (followed (before ++ [s]) i k).getD j 0 ∧
        vHat.get k = ∑ j ∈ range count, correctedWeight (Scalar.ofSingle beta2) steps count j *
          (followed (before ++ [s]) i k).getD j 0 ^ 2) ∧
      ∀ b : α, b ^ steps ≠ 1 →
        ∑ j ∈ range count, correctedWeight b steps count j = (1 - b ^ count) / (1 - b ^ steps) ∧
        (∑ j ∈ range count, correctedWeight b steps count j = 1 ↔ b ^ count = b ^ steps) := by
  intro settings steps count
  have hlt := w.lt_size_of_isResolved (h i hi)
  have hrun (situations : List (Situation α)) :=
    run_eq settings 0 slot_start situations h
  have hresolved : (course settings i (slots.count i) 0 before (start i)
    (w.slot i)).isResolved = true := isResolved_course (h i hi)
  obtain ⟨c₁, hc₁⟩ := Option.isSome_iff_exists.mp hresolved
  obtain ⟨mHat, vHat, -, -, hdirection, hentry⟩ := exists_corrected learningRate beta1
    beta2 epsilon hextents hg
  have hlength : ∀ k, (followed (before ++ [s]) i k).length = count := fun _ => List.length_map _
  have hafter := content_course_concat hc₁ hg
  have hmove : (fun data => Content.quantized c₁.type (update settings steps
      (keptMoments settings i 0 before (start i)) data g).2) = fun data =>
      Content.quantized c₁.type (descend (Scalar.ofSingle learningRate) data
        (mHat.zipWith (fun m v => m / (Scalar.sqrt v + Scalar.ofSingle epsilon)) vHat)) :=
    funext fun data => congrArg (Content.quantized c₁.type) (hdirection data)
  rw [hmove] at hafter
  have hslot (situations : List (Situation α)) : ((w.mapSlots fun i =>
      course settings i (slots.count i) 0 situations (start i)).slot i).content =
        (course settings i (slots.count i) 0 situations (start i) (w.slot i)).content :=
    congrArg Slot.content (Workspace.slot_mapSlots hlt)
  refine ⟨_, _, _, _, c₁, _, mHat, vHat, hrun before, hrun (before ++ [s]),
    (hslot before).trans hc₁, (hslot (before ++ [s])).trans hafter, rfl, ?_, ?_⟩
  · intro k hk
    have hentry := hentry k hk
    simp only [hlength] at hentry
    exact hentry
  · intro b hb
    rw [sum_correctedWeight, div_eq_one_iff_eq (sub_ne_zero.mpr (Ne.symm hb)), sub_right_inj]
    exact ⟨rfl, Iff.rfl⟩

end Adam

/-- A step that a parameter sat out counts in the correction of its first gradient. -/
theorem run_adam_weighted_pause :
    let p : Slot ℚ := ⟨"weight", .weight, true, none, some ⟨.float32, .ofVector [0], none, true⟩⟩
    let w : Workspace ℚ := { Workspace.seeded 0 with slots := #[p] }
    let s : Situation ℚ := ⟨fun _ => true, fun _ => some (.ofVector [1])⟩
    let pause : Situation ℚ := { s with grad := fun _ => none }
    let half := Single.ofDecimal false ⟨5, -1⟩
    ∃ (o₁ o₂ : Optimizer ℚ) (w₁ w₂ : Workspace ℚ),
      run [pause] (fresh (.adam .one half .zero .one) [0]) w = (.ok (), o₁, w₁) ∧
      run [pause, s] (fresh (.adam .one half .zero .one) [0]) w = (.ok (), o₂, w₂) ∧
      ∑ j ∈ range 1, correctedWeight (Scalar.ofSingle half : ℚ) 2 1 j = 2 / 3 := by
  intro p w s pause half
  have hslots : ∀ i ∈ [0], (w.slot i).isResolved = true := by decide
  have hpull : s.pull 0 = some (.ofVector [1]) := rfl
  have hextents : ∀ r ∈ [pause] ++ [s], ∀ a, r.pull 0 = some a →
      a.extents = (w.value (.weight 0)).extents := by decide +kernel
  obtain ⟨o₁, o₂, w₁, w₂, -, -, -, -, hbefore, hafter, -, -, -, -, hweights⟩ :=
    run_adam_weighted .one half .zero .one hslots (List.mem_singleton_self 0) hpull hextents
  exact ⟨o₁, o₂, w₁, w₂, hbefore, hafter,
    (hweights (Scalar.ofSingle half) (by decide +kernel)).1.trans (by decide +kernel)⟩

/-- So its first update does not follow the gradient itself, with which it would be larger. -/
theorem run_adam_after_pause :
    let p : Slot ℚ := ⟨"weight", .weight, true, none, some ⟨.float32, .ofVector [0], none, true⟩⟩
    let w : Workspace ℚ := { Workspace.seeded 0 with slots := #[p] }
    let s : Situation ℚ := ⟨fun _ => true, fun _ => some (.ofVector [1])⟩
    let pause : Situation ℚ := { s with grad := fun _ => none }
    let half := Single.ofDecimal false ⟨5, -1⟩
    let after := (run [pause, s] (fresh (.adam .one half .zero .one) [0]) w).2.2
    let g : DenseArray ℚ := .ofVector [1]
    let direction := g.zipWith (fun m v => m / (Scalar.sqrt v + 1)) (g.zipWith (· * ·) g)
    (after.slot 0).content.map (·.data.toList) = some [-1 / 3] ∧
      (descend 1 (.ofVector [0]) direction).toList = [-1 / 2] := by
  decide +kernel

end Optimizer

end NeuralNet
