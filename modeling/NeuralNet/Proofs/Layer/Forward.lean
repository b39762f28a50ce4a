import NeuralNet.Proofs.Layer.Operations
import NeuralNet.Proofs.Layer.Recurrent

/-!
# What layers make

A layer whose parameters have the extents for one width makes its outputs of some inputs and fails on
all others. Which it is shows in the input alone.

* `Layer.Makes`: the extents of the outputs that an input gives;
* `forward_gives`, `forward_fails`: a layer computes them, and fails where there are none.
-/

namespace NeuralNet

open Run

variable {α : Type} [Scalar α]

/-! ## Convolutions -/

theorem ConvLayer.fit_iff {c : ConvLayer} {s : Extents} {k : Nat} {fitted : Convolution} :
    Convolution.fit s (c.filters :: k :: c.kernel) c.stride c.padding = .ok fitted ↔
      ∃ batch input output, s = batch :: k :: input ∧ input.length = c.kernel.length ∧
        c.windows? input = some output ∧
        fitted = ⟨batch, k, c.filters, input, c.kernel, c.stride, c.padding, output⟩ := by
  match s with
  | [] => simp [Convolution.fit, Convolution.fit.mismatch]
  | [_] => simp [Convolution.fit, Convolution.fit.mismatch]
  | batch :: channels :: input =>
    have hstride := c.stride_length
    have hpadding := c.padding_length
    have hkernel := List.length_pos_of_ne_nil c.kernel_ne
    unfold Convolution.fit
    dsimp only
    by_cases hlen : input.length = c.kernel.length
    · have hne : ¬(input = [] ∨ c.kernel.length ≠ input.length) := by
        rintro (rfl | hne)
        · exact absurd hlen (Nat.ne_of_lt hkernel)
        · exact hne hlen.symm
      have harity : ¬(c.stride.length ≠ input.length ∨ c.padding.length ≠ input.length) := by omega
      rw [if_neg hne, if_neg harity]
      by_cases hchannels : channels = k
      · subst hchannels
        rw [if_neg (not_not.mpr rfl)]
        unfold ConvLayer.windows?
        constructor
        · intro h
          split at h
          · rename_i output houtput
            cases h
            exact ⟨batch, input, output, rfl, hlen, houtput, rfl⟩
          · cases h
        · rintro ⟨_, _, output, ⟨⟩, -, houtput, rfl⟩
          rw [houtput]
      · rw [if_pos hchannels]
        simp [hchannels]
    · have hne : input = [] ∨ c.kernel.length ≠ input.length := .inr (Ne.symm hlen)
      rw [if_pos hne]
      constructor
      · intro h
        cases h
      · rintro ⟨_, _, output, ⟨⟩, hlen', -⟩
        exact absurd hlen' hlen

/-- What a convolution computes, with its bias at hand. -/
def ConvLayer.convolve (c : ConvLayer) (slots : List Nat) (x : Tensor) (bias : Option Tensor) :
    Run α (List Tensor) := do
  return [← x.convolve (← Run.weight (Layer.slotAt slots 0)) bias c.stride c.padding]

theorem ConvLayer.forward_eq (c : ConvLayer) (slots : List Nat) (x : Tensor) :
    ((Layer.conv c).forward slots [x] : Run α _) =
      if c.bias then Run.weight (Layer.slotAt slots 1) >>= fun b => c.convolve slots x (some b)
      else c.convolve slots x none := by
  have hrun : ((Layer.conv c).forward slots [x] : Run α _) =
      if c.bias then some <$> Run.weight (Layer.slotAt slots 1) >>= c.convolve slots x
      else pure none >>= c.convolve slots x := rfl
  rw [hrun, bind_map_left, pure_bind]

namespace Layer

/-- The extents of the outputs that a layer with parameters for width `k` makes of an input. -/
def Makes (l : Layer) (k : Nat) (training : Bool) (x : DenseArray α) (outs : List Extents) : Prop :=
  match l with
  | linear units _ =>
    x.extents.getLast? = some k ∧
      DenseArray.contractsTo (x.extents.dropLast ++ [units]) k = true ∧
      outs = [x.extents.dropLast ++ [units]]
  | conv c =>
    ∃ batch input output, x.extents = batch :: k :: input ∧ input.length = c.kernel.length ∧
      c.windows? input = some output ∧ outs = [batch :: c.filters :: output]
  | batchNorm axis _ _ => x.extents[axis]? = some k ∧ outs = [x.extents]
  | dropout rate =>
    (training = true → rate.value.eqv .zero = true ∨ x.extents.addressable = true) ∧
      outs = [x.extents]
  | flatten =>
    ∃ batch rest, x.extents = batch :: rest ∧
      Extents.addressable [batch, Extents.size rest] = true ∧ outs = [[batch, Extents.size rest]]
  | activation _ => outs = [x.extents]
  | embedding rows width | wordEmbedding rows width =>
    x.namesRows rows = true ∧ Extents.addressable (x.extents ++ [width]) = true ∧
      outs = [x.extents ++ [width]]
  | recurrent r =>
    ∃ batch time, x.extents = [batch, time, k] ∧
      DenseArray.contractsTo [batch, time, r.cell.gates * r.stateSize] k = true ∧
      r.StacksStates batch ∧ outs = r.outputExtents batch time

variable {l : Layer} {k : Nat} {slots : List Nat} {Γ : Context} {t : Tensor} {w : Workspace α}
  {outs : List Extents} {s : Extents}

theorem length_parameterExtents (l : Layer) (k : Nat) :
    (l.parameterExtents k).length = l.declared.length := by
  cases l with
  | linear units bias => cases bias <;> rfl
  | conv c => cases hbias : c.bias <;> simp [parameterExtents, declared, weightAndBias, hbias]
  | recurrent r => simp [parameterExtents, declared, RecurrentLayer.cellExtents, cellParameters]
  | _ => rfl

theorem slotAt_mem {extents : List Extents} {i : Nat} (hlen : slots.length = extents.length)
    (hslots : ∀ p ∈ slots.zip extents, (.weight p.1, p.2) ∈ Γ) (hi : extents[i]? = some s) :
    (.weight (slotAt slots i), s) ∈ Γ := by
  obtain ⟨hlt, rfl⟩ := List.getElem?_eq_some_iff.mp hi
  have hslot : slotAt slots i = slots[i] := by simp [slotAt, hlen, hlt]
  refine hslots (slotAt slots i, extents[i]) (List.mem_iff_getElem.mpr ⟨i, ?_, ?_⟩)
  · simp [hlen, hlt]
  · simp [hslot]

/-- What an embedding computes. -/
def lookUp (i : Nat) (ids : Tensor) : Run α (List Tensor) := do
  let table ← Run.weight i
  return [← ids.embedding table]

theorem lookUp_apply {i rows width : Nat} (hw : w.Models Γ)
    (htable : (.weight i, [rows, width]) ∈ Γ) :
    lookUp i t w = (t.embedding (.weight i) >>= fun y => pure [y]) w :=
  bind_of_ok (weight_apply (hw _ htable))

theorem lookUp_gives {i rows width : Nat} (hw : w.Models Γ) (ht : (t, (w.value t).extents) ∈ Γ)
    (htable : (.weight i, [rows, width]) ∈ Γ) (hrows : (w.value t).namesRows rows = true)
    (haddressable : Extents.addressable ((w.value t).extents ++ [width]) = true) :
    Given Γ (Listed [(w.value t).extents ++ [width]]) (lookUp i t w).1 (lookUp i t w).2 := by
  obtain ⟨y, _, hy, rfl, hmodels⟩ := embedding_ok hw ht htable hrows haddressable
  rw [lookUp_apply hw htable, bind_of_ok (Prod.ext hy rfl)]
  exact Gives.listed [(y, (w.value t).extents ++ [width])] (List.Subset.refl _) _ hmodels

theorem lookUp_fails {i rows width : Nat} (hw : w.Models Γ) (ht : (t, (w.value t).extents) ∈ Γ)
    (htable : (.weight i, [rows, width]) ∈ Γ)
    (h : ¬((w.value t).namesRows rows = true ∧
      Extents.addressable ((w.value t).extents ++ [width]) = true)) :
    ∃ e, (lookUp i t w).1 = .error e := by
  obtain ⟨e, he⟩ := embedding_error hw ht htable h
  refine ⟨e, ?_⟩
  rw [lookUp_apply hw htable, bind_of_error (Prod.ext he rfl)]

theorem forward_batchNorm (axis : Nat) (epsilon momentum : Single) (slots : List Nat) (t : Tensor) :
    ((batchNorm axis epsilon momentum).forward slots [t] : Run α _) =
      Run.weight (slotAt slots 0) >>= fun gamma => Run.weight (slotAt slots 1) >>= fun beta =>
        Run.weight (slotAt slots 2) >>= fun mean => Run.weight (slotAt slots 3) >>= fun variance =>
          get >>= fun w =>
            t.normalize gamma beta mean variance ⟨axis, epsilon, momentum, w.training⟩ >>= fun y =>
              pure [y] := by
  unfold forward singleInput
  rw [pure_bind]

theorem forward_dropout (rate : DropoutRate) (slots : List Nat) (t : Tensor) (w : Workspace α) :
    (dropout rate).forward slots [t] w =
      (if w.training then t.dropout rate.value >>= fun y => pure [y] else pure [t]) w := rfl

theorem forward_flatten (slots : List Nat) (t : Tensor) :
    (flatten.forward slots [t] : Run α _) = value t >>= fun y =>
      match y.extents with
      | [] => throw (.invalidArgument (.rankZero "flatten" "input"))
      | batch :: rest => t.reshape [batch, Extents.size rest] >>= fun z => pure [z] := rfl

/-- A layer makes its outputs. -/
theorem forward_gives (hlen : slots.length = l.declared.length)
    (hslots : ∀ p ∈ slots.zip (l.parameterExtents k), (.weight p.1, p.2) ∈ Γ) (hw : w.Models Γ)
    (ht : (t, (w.value t).extents) ∈ Γ) (h : l.Makes k w.training (w.value t) outs) :
    Given Γ (Listed outs) (l.forward slots [t] w).1 (l.forward slots [t] w).2 := by
  have hlen := hlen.trans (length_parameterExtents l k).symm
  have hslot : ∀ i s, (l.parameterExtents k)[i]? = some s → (.weight (slotAt slots i), s) ∈ Γ :=
    fun i s hi => slotAt_mem hlen hslots hi
  have hone : ∀ s Γ' y, Γ ⊆ Γ' →
      Ends ((y, s) :: Γ') (pure [y] : Run α _) (Given Γ (Listed [s])) := fun s Γ' y hsub =>
    Gives.listed [(y, s)] (List.cons_subset_cons _ hsub)
  cases l with
  | linear units bias =>
    obtain ⟨hlast, hcontract, rfl⟩ := h
    have hweight := hslot 0 _ rfl
    refine (Ends.weight hweight (Makes.bind (Makes.matmul ht hweight hlast hcontract) fun y => ?_) :
      Ends Γ _ _) w hw
    cases bias with
    | false => exact hone _ _ y (List.Subset.refl _)
    | true =>
      have hbias := hslot 1 [units] rfl
      refine Ends.weight (.tail _ hbias) (Makes.bind (Makes.add List.mem_cons_self (.tail _ hbias)
        (Extents.broadcast?_last _ units)) fun z => ?_)
      exact hone _ _ z (List.subset_cons_self _ _)
  | conv c =>
    obtain ⟨batch, input, output, hx, hlen, hwindows, rfl⟩ := h
    rw [hx] at ht
    have hweight := hslot 0 _ rfl
    have hfit : Convolution.fit (batch :: k :: input) (c.filters :: k :: c.kernel) c.stride
        c.padding = .ok ⟨batch, k, c.filters, input, c.kernel, c.stride, c.padding, output⟩ :=
      ConvLayer.fit_iff.mpr ⟨batch, input, output, rfl, hlen, hwindows, rfl⟩
    have hconvolve : ∀ bias : Option Tensor, (∀ b ∈ bias, (b, [c.filters]) ∈ Γ) →
        Gives Γ (c.convolve slots t bias : Run α _) (Listed [batch :: c.filters :: output]) :=
      fun bias hbias => Ends.weight hweight (Makes.bind (Makes.convolve ht hweight hbias hfit)
        fun y => hone _ _ y (List.Subset.refl _))
    rw [c.forward_eq]
    cases hbias : c.bias with
    | false => exact hconvolve none (by simp) w hw
    | true =>
      have hshift := hslot 1 [c.filters] (by simp [parameterExtents, hbias])
      exact Ends.weight hshift (hconvolve _ (by simpa using hshift)) w hw
  | batchNorm axis epsilon momentum =>
    obtain ⟨haxis, rfl⟩ := h
    have hgamma := hslot 0 _ rfl
    have hbeta := hslot 1 _ rfl
    have hmean := hslot 2 _ rfl
    have hvariance := hslot 3 _ rfl
    rw [forward_batchNorm]
    refine (Ends.weight hgamma (Ends.weight hbeta (Ends.weight hmean (Ends.weight hvariance
      ?_))) : Ends Γ _ _) w hw
    refine Ends.get fun v _ => ?_
    refine Makes.bind (Makes.normalize ht hgamma hbeta hmean hvariance haxis) fun y => ?_
    exact hone _ _ y (List.Subset.refl _)
  | dropout rate =>
    obtain ⟨hmask, rfl⟩ := h
    rw [forward_dropout]
    cases htraining : w.training with
    | false =>
      have hsub := List.cons_subset.mpr ⟨ht, List.Subset.refl Γ⟩
      exact Gives.listed [(t, (w.value t).extents)] hsub w hw
    | true =>
      refine (Makes.bind (Makes.dropout ht rate.fraction (hmask htraining)) fun y => ?_ :
        Ends Γ _ _) w hw
      exact hone _ _ y (List.Subset.refl _)
  | flatten =>
    obtain ⟨batch, rest, hx, haddressable, rfl⟩ := h
    rw [hx] at ht
    rw [forward_flatten]
    refine (Ends.value ht fun y hy => ?_ : Ends Γ _ _) w hw
    rw [hy]
    refine Makes.bind (Makes.reshape ht haddressable (by simp [Extents.size])) fun z => ?_
    exact hone _ _ z (List.Subset.refl _)
  | activation a =>
    obtain rfl := h
    refine (Makes.bind (Makes.activation a ht) fun y => ?_ : Ends Γ _ _) w hw
    exact hone _ _ y (List.Subset.refl _)
  | embedding rows width | wordEmbedding rows width =>
    obtain ⟨hrows, haddressable, rfl⟩ := h
    exact lookUp_gives hw ht (hslot 0 [rows, width] rfl) hrows haddressable
  | recurrent r =>
    obtain ⟨batch, time, hx, hcontract, hstates, rfl⟩ := h
    rw [hx] at ht
    exact RecurrentLayer.forward_gives hlen hslots ht hcontract hstates w hw

/-- A layer fails where it makes no outputs. -/
theorem forward_fails (hlen : slots.length = l.declared.length)
    (hslots : ∀ p ∈ slots.zip (l.parameterExtents k), (.weight p.1, p.2) ∈ Γ) (hw : w.Models Γ)
    (ht : (t, (w.value t).extents) ∈ Γ) (h : ∀ outs, ¬l.Makes k w.training (w.value t) outs) :
    ∃ e, (l.forward slots [t] w).1 = .error e := by
  have hlen := hlen.trans (length_parameterExtents l k).symm
  have hslot : ∀ i s, (l.parameterExtents k)[i]? = some s → (.weight (slotAt slots i), s) ∈ Γ :=
    fun i s hi => slotAt_mem hlen hslots hi
  cases l with
  | linear units bias =>
    have hweight := hslot 0 _ rfl
    have hmatmul := Stuck.matmul (α := α) ht hweight fun hmakes => h _ ⟨hmakes.1, hmakes.2, rfl⟩
    exact (Ends.weight hweight (hmatmul.bind _) : Stuck Γ _) w hw
  | conv c =>
    have hweight := hslot 0 _ rfl
    have hfit : ∃ e, Convolution.fit (w.value t).extents (c.filters :: k :: c.kernel) c.stride
        c.padding = .error e := by
      cases hfit : Convolution.fit (w.value t).extents (c.filters :: k :: c.kernel) c.stride
          c.padding with
      | error e => exact ⟨e, rfl⟩
      | ok fitted =>
        obtain ⟨batch, input, output, hx, hlen, hwindows, -⟩ := ConvLayer.fit_iff.mp hfit
        exact (h _ ⟨batch, input, output, hx, hlen, hwindows, rfl⟩).elim
    obtain ⟨e, he⟩ := hfit
    have hconvolve : ∀ bias, Stuck Γ (c.convolve slots t bias : Run α _) := fun bias =>
      Ends.weight hweight ((Stuck.convolve ht hweight he).bind _)
    rw [c.forward_eq]
    cases hbias : c.bias with
    | false => exact hconvolve none w hw
    | true =>
      have hshift := hslot 1 [c.filters] (by simp [parameterExtents, hbias])
      exact (Ends.weight hshift (hconvolve _) : Stuck Γ _) w hw
  | batchNorm axis epsilon momentum =>
    have hgamma := hslot 0 _ rfl
    rw [forward_batchNorm]
    refine (Ends.weight hgamma (Ends.weight (hslot 1 _ rfl) (Ends.weight (hslot 2 _ rfl)
      (Ends.weight (hslot 3 _ rfl) ?_))) : Stuck Γ _) w hw
    refine Ends.get fun v _ => ?_
    exact (Stuck.normalize ht hgamma fun haxis => h _ ⟨haxis, rfl⟩).bind _
  | dropout rate =>
    have hmask : ¬(w.training = true → rate.value.eqv .zero = true ∨
        (w.value t).extents.addressable = true) := fun hmask => h _ ⟨hmask, rfl⟩
    obtain ⟨htraining, hmask⟩ := not_forall.mp hmask
    obtain ⟨hzero, hlarge⟩ := not_or.mp hmask
    rw [forward_dropout, if_pos htraining]
    exact (Stuck.dropout ht (Bool.not_eq_true _ ▸ hzero) (Bool.not_eq_true _ ▸ hlarge)).bind _ w hw
  | flatten =>
    rw [forward_flatten]
    refine (Ends.value ht fun y hy => ?_ : Stuck Γ _) w hw
    rw [hy]
    split
    · exact Stuck.throw _
    · rename_i batch rest hx
      have hlarge : Extents.addressable [batch, Extents.size rest] = false :=
        Bool.eq_false_iff.mpr fun haddressable => h _ ⟨batch, rest, hx, haddressable, rfl⟩
      exact (Stuck.reshape ht hlarge).bind _
  | activation a => exact (h _ rfl).elim
  | embedding rows width | wordEmbedding rows width =>
    exact lookUp_fails hw ht (hslot 0 [rows, width] rfl) fun hmakes => h _ ⟨hmakes.1, hmakes.2, rfl⟩
  | recurrent r =>
    refine RecurrentLayer.forward_stuck hlen hslots ht ?_ w hw
    rintro ⟨batch, time, hx, hcontract, hstates⟩
    exact h _ ⟨batch, time, hx, hcontract, hstates, rfl⟩

end Layer

end NeuralNet
