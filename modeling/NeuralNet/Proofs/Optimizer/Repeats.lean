import Mathlib.Algebra.Field.Rat
import Mathlib.Algebra.Order.Ring.Unbundled.Rat
import Mathlib.Data.List.Dedup
import NeuralNet.Proofs.DenseArray.Entries
import NeuralNet.Proofs.Optimizer.Run

/-!
# Parameters that are listed more than once

Blocks that share a parameter each list it. An optimizer keeps moments for every entry of its list
and visits a parameter once for each of them, so that it moves a shared one several times in a step.

* `run_repeats`: a run over a list with repeats, beside the run over the list without them;
* `run_repeats_moves_twice`: they differ;
* `content_iterate_visit`: in exact arithmetic several visits are one at a multiple of the rate.
-/

namespace NeuralNet

/-- How far values follow their gradient. -/
def OptimizerSettings.rate : OptimizerSettings → Single
  | sgd learningRate _ | adam learningRate _ _ _ => learningRate

namespace Optimizer

variable {α : Type} {settings : OptimizerSettings} {steps : Nat}

section Scalar

variable [Scalar α]

theorem iterate_visit_of_pull {t : Tracked α} {p : Slot α} (h : p.pull = none) (n : Nat) :
    (visit settings steps t)^[n] p = p := by
  have hvisit : visit settings steps t p = p := by
    unfold visit
    rw [h]
  exact Function.iterate_fixed hvisit n

/-- A parameter that never has a gradient to follow is not moved, however often it is listed. -/
theorem course_of_no_pull {i : Nat} {situations : List (Situation α)}
    (h : ∀ s ∈ situations, s.pull i = none) (m n : Nat) (t : Tracked α) (p : Slot α) :
    course settings i m steps situations t p = course settings i n steps situations t p := by
  induction situations generalizing steps t p with
  | nil => rfl
  | cons s rest ih =>
    obtain ⟨hs, hrest⟩ := List.forall_mem_cons.mp h
    have hpull : (p.under s i).pull = none := by
      cases hp : p.isResolved with
      | true => rw [Slot.pull_under hp, hs]
      | false =>
        have hcontent : p.content = none :=
          Option.not_isSome_iff_eq_none.mp (Bool.eq_false_iff.mp hp)
        simp [Slot.pull, Slot.under, hcontent]
    rw [course, course, iterate_visit_of_pull hpull, iterate_visit_of_pull hpull]
    exact ih hrest _ _

/-- A run over a list with repeats leaves the moments of the run over the list without them, once
for each entry. In each step it moves a parameter as often as it is listed. So parameters that are
listed once come to the same values, and so do those that never have a gradient to follow. -/
theorem run_repeats (settings : OptimizerSettings) (slots : List Nat)
    (situations : List (Situation α)) (w : Workspace α)
    (h : ∀ i ∈ slots, (w.slot i).isResolved = true) :
    let kept (i : Nat) := keptMoments settings i 0 situations (start i)
    let after (i times : Nat) := course settings i times 0 situations (start i) (w.slot i)
    ∃ w₁ w₂ : Workspace α,
      run situations (fresh settings slots) w =
          (.ok (), ⟨settings, situations.length, slots.map kept⟩, w₁) ∧
        run situations (fresh settings slots.dedup) w =
          (.ok (), ⟨settings, situations.length, slots.dedup.map kept⟩, w₂) ∧
        ∀ i < w.slots.size, w₁.slot i = after i (slots.count i) ∧
          w₂.slot i = after i (if i ∈ slots then 1 else 0) ∧
          (slots.count i ≤ 1 ∨ (∀ s ∈ situations, s.pull i = none) → w₁.slot i = w₂.slot i) := by
  intro kept after
  have hdedup : ∀ i ∈ slots.dedup, (w.slot i).isResolved = true := fun i hi =>
    h i (List.mem_dedup.mp hi)
  have hstart : ∀ i, (start i : Tracked α).slot = i := fun _ => rfl
  have hfirst := run_eq settings 0 hstart situations h
  have hsecond := run_eq settings 0 hstart situations hdedup
  rw [Nat.zero_add] at hfirst hsecond
  refine ⟨_, _, hfirst, hsecond, fun i hi => ?_⟩
  rw [Workspace.slot_mapSlots hi, Workspace.slot_mapSlots hi, List.count_dedup]
  refine ⟨rfl, rfl, ?_⟩
  rintro (hcount | hpull)
  · have htimes : slots.count i = if i ∈ slots then 1 else 0 := by
      split
      · rename_i hmem
        exact Nat.le_antisymm hcount (List.count_pos_iff.mpr hmem)
      · rename_i hmem
        exact List.count_eq_zero.mpr hmem
    rw [htimes]
  · exact course_of_no_pull hpull _ _ _ _

end Scalar

/-- A parameter is listed twice, one beside it once. After two steps the latter is where it is
without the repeat. -/
theorem run_repeats_beside :
    let p : Slot Single :=
      ⟨"weight", .weight, true, none, some ⟨.float16, .ofVector [.one], none, true⟩⟩
    let w : Workspace Single := { Workspace.seeded 0 with slots := #[p, p] }
    let s : Situation Single := ⟨fun _ => true, fun _ => some (.ofVector [.one])⟩
    let settings := OptimizerSettings.adamWith .one
    ofSlots settings [0, 1, 0] = .ok (fresh settings [0, 1, 0] : Optimizer Single) ∧
      (run [s, s] (fresh settings [0, 1, 0]) w).1 = .ok () ∧
      (run [s, s] (fresh settings [0, 1, 0]) w).2.2.slot 1 =
        (run [s, s] (fresh settings [1, 0]) w).2.2.slot 1 := by
  intro p w s settings
  obtain ⟨w₁, w₂, hfirst, hsecond, hslots⟩ :=
    run_repeats settings [0, 1, 0] [s, s] w (by decide)
  have hdedup : [0, 1, 0].dedup = [1, 0] := by decide
  rw [hdedup] at hsecond
  rw [hfirst, hsecond]
  exact ⟨rfl, rfl, (hslots 1 (by decide)).2.2 (.inl (by decide))⟩

/-- One step moves a parameter twice that is listed twice. -/
theorem run_repeats_moves_twice :
    let w : Workspace Single :=
      { Workspace.seeded 0 with
        slots := #[⟨"weight", .weight, true, none, some ⟨.float32, .ofVector [.zero], none, true⟩⟩] }
    let s : Situation Single := ⟨fun _ => true, fun _ => some (.ofVector [.one])⟩
    let values (settings : OptimizerSettings) (slots : List Nat) :=
      ((run [s] (fresh settings slots) w).2.2.slot 0).content.map (·.data.toList)
    (w.slot 0).isResolved = true ∧
      values (.sgd .one .zero) [0] = some [.ofInt (-1)] ∧
      values (.sgd .one .zero) [0, 0] = some [.ofInt (-2)] ∧
      values (.adamWith .one) [0, 0] ≠ values (.adamWith .one) [0] := by
  decide +kernel

/-! ## Exact arithmetic -/

theorem exists_direction [Scalar α] (settings : OptimizerSettings) (steps : Nat) (t : Tracked α)
    (g : DenseArray α) : ∃ direction : DenseArray α, ∀ data,
      (update settings steps t data g).2 =
        descend (Scalar.ofSingle settings.rate) data direction := by
  cases settings with
  | sgd rate momentum =>
    unfold update
    dsimp only
    split
    · exact ⟨g, fun _ => rfl⟩
    · exact ⟨_, fun _ => rfl⟩
  | adam => exact ⟨_, fun _ => rfl⟩

variable [ExactScalar α]

theorem quantized_of_wide {type : DataType} (h : type = .float32 ∨ type = .float64)
    (data : DenseArray α) : Content.quantized type data = data := by
  have hquantize : (type.quantize : α → α) = id := by
    rcases h with rfl | rfl <;> rfl
  obtain ⟨s, x, hx⟩ := data
  simp [Content.quantized, DenseArray.map, hquantize]

theorem descend_zero (data direction : DenseArray α) : descend 0 data direction = data := by
  refine DenseArray.ext_entry rfl fun k => ?_
  rw [descend, DenseArray.entry_zipWith, zero_mul, sub_zero]
  split
  · rfl
  · rename_i hk
    exact (DenseArray.entry_of_le (Nat.not_lt.mp hk)).symm

theorem descend_descend (a b : α) (data direction : DenseArray α) :
    descend b (descend a data direction) direction = descend (a + b) data direction := by
  refine DenseArray.ext_entry rfl fun k => ?_
  have hextents : (descend a data direction).extents = data.extents := rfl
  rw [descend, DenseArray.entry_zipWith, hextents, descend, descend, DenseArray.entry_zipWith,
    DenseArray.entry_zipWith]
  split
  · rw [add_mul, sub_sub]
  · rfl

/-- Several visits move values of a wide type as one at a multiple of the rate. -/
theorem content_iterate_visit {t : Tracked α} {p : Slot α} {c : Content α} {g : DenseArray α}
    (hc : p.content = some c) (hpull : p.pull = some g)
    (htype : c.type = .float32 ∨ c.type = .float64) : ∃ direction : DenseArray α, ∀ n : Nat,
      ((visit settings steps t)^[n] p).content =
        some { c with data := descend (n * Scalar.ofSingle settings.rate) c.data direction } := by
  obtain ⟨direction, hdirection⟩ := exists_direction settings steps t g
  refine ⟨direction, fun n => ?_⟩
  induction n with
  | zero => rw [Nat.cast_zero, zero_mul, descend_zero, Function.iterate_zero_apply, hc]
  | succ n ih =>
    rw [Function.iterate_succ_apply', visit, pull_iterate_visit, hpull]
    dsimp only
    rw [ih, Option.map_some, quantized_of_wide htype, hdirection, descend_descend, Nat.cast_succ,
      add_mul, one_mul]

end Optimizer

end NeuralNet
