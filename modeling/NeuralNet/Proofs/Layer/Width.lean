import NeuralNet.Layer.Shape
import NeuralNet.Proofs.Checks

/-!
# What a layer takes from the shape of its input

A layer reads the axes behind the batch axis. The batch axis is passed on as it is, open or not; only
the last states of a recurrent layer need its extent. The extents of the parameters go by one number
of the input, the width.

* `inputWidth_leading`, `outputShapes_leading`: the width and the outputs, told from the axes behind
  the batch axis.
-/

namespace NeuralNet

/-! ## Shapes with a batch axis -/

namespace Shape

/-- The shape with these axes behind the batch axis, which is open if there is no number for it. -/
def leading (batch : Option Nat) (tail : List Nat) : Shape := ⟨batch, tail, batch.isNone⟩

variable {batch : Option Nat} {tail : List Nat} {axis : Nat}

@[simp]
theorem tail_leading : (leading batch tail).tail = tail := rfl

@[simp]
theorem withTail_leading (tail' : List Nat) :
    (leading batch tail).withTail tail' = leading batch tail' := rfl

@[simp]
theorem rank_leading : (leading batch tail).rank = tail.length + 1 := by
  cases batch <;> rfl

@[simp]
theorem requireDim_leading {d : Nat} {context : String} :
    (leading batch tail).requireDim (axis + 1) context = .ok d ↔ tail[axis]? = some d := by
  unfold requireDim dim
  cases h : tail[axis]? <;> simp [h]

theorem expectRank_leading {rank : Nat} {context : String} :
    (leading batch tail).expectRank rank context = .ok () ↔ tail.length + 1 = rank := by
  unfold expectRank
  rw [rank_leading]
  by_cases h : tail.length + 1 = rank <;> simp [h]

end Shape

/-- How many windows fit on every axis that windows move along. -/
def ConvLayer.windows? (c : ConvLayer) (input : List Nat) : Option (List Nat) :=
  (input.zip (c.kernel.zip (c.stride.zip c.padding))).mapM fun (n, k, s, p) => windowCount? n k s p

/-- The extents of the last states for a batch. -/
def RecurrentLayer.stateExtents (r : RecurrentLayer) (batch : Nat) : List Extents :=
  let state := [r.depth, batch, r.stateSize]
  state :: if r.cell.hasMemory then [state] else []

namespace Layer

open Shape (leading)

variable {l : Layer} {c : ConvLayer} {r : RecurrentLayer} {batch : Option Nat} {tail tail' : List Nat}
  {s : Shape} {k axis : Nat} {inputs outs : List Shape}

/-! ## The checks of an input -/

theorem linearFeatures_leading :
    linearFeatures [leading batch tail] = .ok (s, k) ↔
      s = leading batch tail ∧ tail.getLast? = some k := by
  unfold linearFeatures singleShape
  simp only [bind_eq_ok_iff, guard_eq_ok_iff]
  cases tail with
  | nil => simp
  | cons d rest =>
    have hrank : (leading batch (d :: rest)).rank - 1 = rest.length + 1 := by simp
    simp only [Except.ok.injEq, exists_eq_left', hrank, Shape.requireDim_leading, pure, Except.pure,
      Prod.mk.injEq, List.getLast?_eq_getElem?, List.length_cons, Nat.add_sub_cancel]
    constructor
    · rintro ⟨-, d, hd, rfl, rfl⟩
      exact ⟨rfl, hd⟩
    · rintro ⟨rfl, hd⟩
      exact ⟨by simp, k, hd, rfl, rfl⟩

theorem convInput_leading :
    convInput c [leading batch tail] = .ok s ↔
      s = leading batch tail ∧ tail.length = c.kernel.length + 1 := by
  unfold convInput singleShape
  simp only [bind_eq_ok_iff, Except.ok.injEq, exists_eq_left', pure, Except.pure]
  constructor
  · rintro ⟨_, h, rfl⟩
    exact ⟨rfl, Nat.succ.inj (Shape.expectRank_leading.mp h)⟩
  · rintro ⟨rfl, h⟩
    exact ⟨(), Shape.expectRank_leading.mpr (congrArg Nat.succ h), rfl⟩

theorem normChannels_leading :
    normChannels axis [leading batch tail] = .ok (s, k) ↔
      s = leading batch tail ∧ axis ≠ 0 ∧ tail[axis - 1]? = some k := by
  unfold normChannels singleShape
  simp only [bind_eq_ok_iff, guard_eq_ok_iff]
  cases axis with
  | zero => simp
  | succ axis =>
    simp only [Except.ok.injEq, exists_eq_left', Shape.requireDim_leading, pure, Except.pure,
      Prod.mk.injEq, Shape.rank_leading, Nat.add_sub_cancel]
    constructor
    · rintro ⟨-, d, hd, rfl, rfl⟩
      exact ⟨rfl, Nat.succ_ne_zero axis, hd⟩
    · rintro ⟨rfl, -, hd⟩
      obtain ⟨hlt, -⟩ := List.getElem?_eq_some_iff.mp hd
      exact ⟨by omega, k, hd, rfl, rfl⟩

theorem recurrentFeatures_leading :
    recurrentFeatures r [leading batch tail] = .ok (s, k) ↔
      s = leading batch tail ∧ ∃ time, tail = [time, k] := by
  unfold recurrentFeatures singleShape
  simp only [bind_eq_ok_iff, Except.ok.injEq, exists_eq_left', Shape.requireDim_leading, pure,
    Except.pure, Prod.mk.injEq]
  constructor
  · rintro ⟨_, hrank, d, hd, rfl, rfl⟩
    obtain ⟨time, d', rfl⟩ :=
      List.length_eq_two.mp (Nat.succ.inj (Shape.expectRank_leading.mp hrank))
    cases hd
    exact ⟨rfl, time, rfl⟩
  · rintro ⟨rfl, time, rfl⟩
    exact ⟨(), Shape.expectRank_leading.mpr rfl, k, rfl, rfl, rfl⟩

/-! ## The width -/

/-- The number of the input that the extents of the parameters go by; 0 if they go by none. -/
def inputWidth : Layer → List Shape → Except Error Nat
  | linear _ _, inputs => (·.2) <$> linearFeatures inputs
  | conv c, inputs => do (← convInput c inputs).requireDim 1 c.name
  | batchNorm axis _ _, inputs => (·.2) <$> normChannels axis inputs
  | recurrent r, inputs => (·.2) <$> recurrentFeatures r inputs
  | _, _ => .ok 0

/-- The width, told from the axes behind the batch axis. -/
def width? : Layer → List Nat → Option Nat
  | linear _ _, tail => tail.getLast?
  | conv c, tail => if tail.length = c.kernel.length + 1 then tail[0]? else none
  | batchNorm axis _ _, tail => if axis = 0 then none else tail[axis - 1]?
  | recurrent _, tail => if tail.length = 2 then tail[1]? else none
  | _, _ => some 0

theorem inputWidth_leading :
    l.inputWidth [leading batch tail] = .ok k ↔ l.width? tail = some k := by
  cases l with
  | linear units bias =>
    unfold inputWidth width?
    simp only [map_eq_ok_iff, Prod.exists, linearFeatures_leading]
    constructor
    · rintro ⟨_, _, ⟨rfl, hk⟩, rfl⟩
      exact hk
    · intro hk
      exact ⟨_, _, ⟨rfl, hk⟩, rfl⟩
  | conv c =>
    unfold inputWidth width?
    simp only [bind_eq_ok_iff, convInput_leading]
    constructor
    · rintro ⟨_, ⟨rfl, hlen⟩, hk⟩
      rw [if_pos hlen]
      exact Shape.requireDim_leading.mp hk
    · intro hk
      obtain ⟨hlen, hk⟩ := Option.ite_none_right_eq_some.mp hk
      exact ⟨_, ⟨rfl, hlen⟩, Shape.requireDim_leading.mpr hk⟩
  | batchNorm axis epsilon momentum =>
    unfold inputWidth width?
    simp only [map_eq_ok_iff, Prod.exists, normChannels_leading]
    constructor
    · rintro ⟨_, _, ⟨rfl, haxis, hk⟩, rfl⟩
      rw [if_neg haxis]
      exact hk
    · intro hk
      obtain ⟨haxis, hk⟩ := Option.ite_none_left_eq_some.mp hk
      exact ⟨_, _, ⟨rfl, haxis, hk⟩, rfl⟩
  | recurrent r =>
    unfold inputWidth width?
    simp only [map_eq_ok_iff, Prod.exists, recurrentFeatures_leading]
    constructor
    · rintro ⟨_, _, ⟨rfl, time, rfl⟩, rfl⟩
      rfl
    · intro hk
      obtain ⟨hlen, hk⟩ := Option.ite_none_right_eq_some.mp hk
      obtain ⟨time, features, rfl⟩ := List.length_eq_two.mp hlen
      cases hk
      exact ⟨_, _, ⟨rfl, time, rfl⟩, rfl⟩
  | dropout | flatten | activation | embedding | wordEmbedding => simp [inputWidth, width?]

/-! ## The outputs -/

theorem convExtent_leading {n : Nat} :
    convExtent c (leading batch tail) axis = .ok n ↔ ∃ extent, tail[axis + 1]? = some extent ∧
      windowCount? extent (c.kernel.getD axis 0) (c.stride.getD axis 0) (c.padding.getD axis 0) =
        some n := by
  unfold convExtent
  simp only [bind_eq_ok_iff, Shape.requireDim_leading]
  refine exists_congr fun extent => and_congr_right fun _ => ?_
  cases windowCount? extent (c.kernel.getD axis 0) (c.stride.getD axis 0) (c.padding.getD axis 0) with
  | none => simp [throw, throwThe, MonadExceptOf.throw]
  | some m => simp [pure, Except.pure]

theorem convExtents_leading {channels : Nat} {input extents : List Nat}
    (hlen : input.length = c.kernel.length) :
    (List.range c.kernel.length).mapM (convExtent c (leading batch (channels :: input))) =
        .ok extents ↔ c.windows? input = some extents := by
  have hstride := c.stride_length
  have hpadding := c.padding_length
  have hzip : (input.zip (c.kernel.zip (c.stride.zip c.padding))).length = c.kernel.length := by
    simp only [List.length_zip]
    omega
  have haxis : ∀ axis n, axis < c.kernel.length →
      (convExtent c (leading batch (channels :: input)) axis = .ok n ↔
        windowCount? (input.getD axis 0) (c.kernel.getD axis 0) (c.stride.getD axis 0)
          (c.padding.getD axis 0) = some n) := by
    intro axis n h
    rw [convExtent_leading]
    simp [hlen, h]
  unfold ConvLayer.windows?
  rw [mapM_eq_ok_iff, mapM_eq_some_iff, List.forall₂_iff_get, List.forall₂_iff_get]
  constructor
  · rintro ⟨hextents, h⟩
    rw [List.length_range] at hextents
    refine ⟨hzip.trans hextents, fun axis hin hout => ?_⟩
    have hlt : axis < c.kernel.length := hzip ▸ hin
    have hwindow := h axis (by simpa using hlt) hout
    simp only [List.get_eq_getElem, List.getElem_range] at hwindow
    rw [haxis axis _ hlt] at hwindow
    simpa [hlen, hlt, hstride, hpadding] using hwindow
  · rintro ⟨hextents, h⟩
    rw [hzip] at hextents
    refine ⟨by rwa [List.length_range], fun axis hin hout => ?_⟩
    have hlt : axis < c.kernel.length := by simpa using hin
    have hwindow := h axis (hzip.symm ▸ hlt) hout
    simp only [List.get_eq_getElem, List.getElem_range]
    rw [haxis axis _ hlt]
    simpa [hlen, hlt, hstride, hpadding] using hwindow

/-- The axes of the first output behind its batch axis. -/
def outputTail? : Layer → List Nat → Option (List Nat)
  | linear units _, tail => if tail = [] then none else some (tail.dropLast ++ [units])
  | conv c, tail =>
    if tail.length = c.kernel.length + 1 then (c.windows? tail.tail).map (c.filters :: ·) else none
  | batchNorm axis _ _, tail => if axis = 0 ∨ tail.length < axis then none else some tail
  | flatten, tail => some [Extents.size tail]
  | embedding _ width, tail | wordEmbedding _ width, tail => some (tail ++ [width])
  | recurrent r, tail => if tail.length = 2 then some [tail.headD 0, r.stateSize] else none
  | dropout _, tail | activation _, tail => some tail

/-- The extents of the other outputs, which are only known with the batch. -/
def states? : Layer → Option Nat → Option (List Extents)
  | recurrent r, batch => if r.returnState then batch.map r.stateExtents else some []
  | _, _ => some []

theorem states?_recurrent :
    (recurrent r).states? batch = if r.returnState then batch.map r.stateExtents else some [] := rfl

theorem recurrentOutputs_leading :
    recurrentOutputs r [leading batch tail] = .ok outs ↔
      tail.length = 2 ∧ ∃ states, (recurrent r).states? batch = some states ∧
        outs = leading batch [tail.headD 0, r.stateSize] :: states.map Shape.ofExtents := by
  unfold recurrentOutputs states?
  simp only [bind_eq_ok_iff, Prod.exists, recurrentFeatures_leading]
  have hmap : ∀ n, (r.stateExtents n).map Shape.ofExtents =
      let state := Shape.ofExtents [r.depth, n, r.stateSize]
      state :: if r.cell.hasMemory then [state] else [] := by
    intro n
    unfold RecurrentLayer.stateExtents
    cases r.cell.hasMemory <;> rfl
  constructor
  · rintro ⟨_, k, ⟨rfl, time, rfl⟩, time', htime, h⟩
    cases Shape.requireDim_leading.mp htime
    refine ⟨rfl, ?_⟩
    cases hstate : r.returnState with
    | false =>
      rw [hstate] at h
      cases h
      exact ⟨[], rfl, rfl⟩
    | true =>
      rw [hstate] at h
      cases batch with
      | none => cases h
      | some n =>
        cases h
        exact ⟨r.stateExtents n, rfl, by rw [hmap]; rfl⟩
  · rintro ⟨hlen, states, hstates, rfl⟩
    obtain ⟨time, k, rfl⟩ := List.length_eq_two.mp hlen
    refine ⟨_, k, ⟨rfl, time, rfl⟩, time, rfl, ?_⟩
    cases hstate : r.returnState with
    | false =>
      rw [hstate] at hstates
      cases hstates
      rfl
    | true =>
      rw [hstate] at hstates
      obtain ⟨n, rfl, rfl⟩ := Option.map_eq_some_iff.mp hstates
      rw [hmap]
      rfl

theorem outputShapes_leading :
    l.outputShapes [leading batch tail] = .ok outs ↔
      ∃ tail' states, l.outputTail? tail = some tail' ∧ l.states? batch = some states ∧
        outs = leading batch tail' :: states.map Shape.ofExtents := by
  cases l with
  | linear units bias =>
    unfold outputShapes outputTail? states?
    simp only [bind_eq_ok_iff, Prod.exists, linearFeatures_leading, Option.ite_none_left_eq_some]
    constructor
    · rintro ⟨_, k, ⟨rfl, hk⟩, h⟩
      cases h
      exact ⟨_, [], ⟨List.ne_nil_of_mem (List.mem_of_getLast? hk), rfl⟩, rfl, rfl⟩
    · rintro ⟨_, _, ⟨htail, ⟨⟩⟩, ⟨⟩, rfl⟩
      exact ⟨_, _, ⟨rfl, List.getLast?_eq_some_getLast htail⟩, rfl⟩
  | conv c =>
    unfold outputShapes outputTail? states?
    simp only [bind_eq_ok_iff, convInput_leading, Option.ite_none_right_eq_some]
    constructor
    · rintro ⟨_, ⟨rfl, hlen⟩, extents, hextents, h⟩
      cases h
      obtain ⟨channels, input, rfl⟩ := List.exists_cons_of_length_eq_add_one hlen
      have hwindows := (convExtents_leading (Nat.succ.inj hlen)).mp hextents
      exact ⟨_, [], ⟨hlen, Option.map_eq_some_iff.mpr ⟨extents, hwindows, rfl⟩⟩, rfl, rfl⟩
    · rintro ⟨_, _, ⟨hlen, h⟩, ⟨⟩, rfl⟩
      obtain ⟨extents, hwindows, rfl⟩ := Option.map_eq_some_iff.mp h
      obtain ⟨channels, input, rfl⟩ := List.exists_cons_of_length_eq_add_one hlen
      exact ⟨_, ⟨rfl, hlen⟩, extents, (convExtents_leading (Nat.succ.inj hlen)).mpr hwindows, rfl⟩
  | batchNorm axis epsilon momentum =>
    unfold outputShapes outputTail? states?
    simp only [bind_eq_ok_iff, Prod.exists, normChannels_leading, Option.ite_none_left_eq_some]
    constructor
    · rintro ⟨_, k, ⟨rfl, haxis, hk⟩, h⟩
      cases h
      obtain ⟨hlt, -⟩ := List.getElem?_eq_some_iff.mp hk
      exact ⟨_, [], ⟨by omega, rfl⟩, rfl, rfl⟩
    · rintro ⟨_, _, ⟨haxis, ⟨⟩⟩, ⟨⟩, rfl⟩
      have hlt : axis - 1 < tail.length := by omega
      exact ⟨_, _, ⟨rfl, by omega, List.getElem?_eq_getElem hlt⟩, rfl⟩
  | flatten =>
    simp [outputShapes, singleShape, outputTail?, states?, bind, Except.bind, pure, Except.pure,
      eq_comm]
  | recurrent r =>
    unfold outputShapes outputTail?
    simp only [recurrentOutputs_leading, Option.ite_none_right_eq_some]
    constructor
    · rintro ⟨hlen, states, hstates, rfl⟩
      exact ⟨_, states, ⟨hlen, rfl⟩, hstates, rfl⟩
    · rintro ⟨_, states, ⟨hlen, ⟨⟩⟩, hstates, rfl⟩
      exact ⟨hlen, states, hstates, rfl⟩
  | dropout | activation | embedding | wordEmbedding =>
    simp [outputShapes, embeddingOutput, singleShape, outputTail?, states?, bind, Except.bind, pure,
      Except.pure, eq_comm]

/-- No layer takes several inputs. -/
theorem singleton_of_outputShapes (l : Layer) (h : l.outputShapes inputs = .ok outs) :
    ∃ s, inputs = [s] := by
  match inputs with
  | [s] => exact ⟨s, rfl⟩
  | [] => cases l <;> cases h
  | s :: s' :: rest => cases l <;> cases h

end Layer

end NeuralNet
