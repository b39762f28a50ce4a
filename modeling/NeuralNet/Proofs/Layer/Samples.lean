import NeuralNet.Proofs.Block.Evaluation
import NeuralNet.Proofs.DenseArray.Samples

/-!
# Layers leave samples apart

In evaluation a layer with the parameters that it has for a width computes every sample by itself:
from chosen samples it makes the chosen samples of its outputs. The states that a recurrent layer
returns have the samples on their second axis.

* `Sampled`: outputs for chosen samples;
* `evaluateOn_sampled`: a layer computes these;
* `Makes.picked`, `makes_of_singles`: for which samples it has outputs at all.
-/

namespace NeuralNet

open DenseArray (Picks PicksSecond)

variable {α : Type} [Scalar α] {idx : List Nat} {n : Nat}

/-- Outputs, and those for the samples at these positions. -/
def Sampled (idx : List Nat) (n : Nat) : List (DenseArray α) → List (DenseArray α) → Prop
  | y :: rest, y' :: rest' =>
    (∃ s, Picks idx n s y y') ∧ List.Forall₂ (PicksSecond idx n) rest rest'
  | _, _ => False

theorem Sampled.single {s : Extents} {y y' : DenseArray α} (h : Picks idx n s y y') :
    Sampled idx n [y] [y'] := ⟨⟨s, h⟩, .nil⟩

/-! ## Cells -/

/-- States for chosen samples. -/
def CellValues.Picks (idx : List Nat) (n size : Nat) (v v' : CellValues α) : Prop :=
  DenseArray.Picks idx n [size] v.state v'.state ∧ DenseArray.Picks idx n [size] v.memory v'.memory

/-- The parameters of a cell have the extents for inputs of a width. -/
structure Cell.Weights.Fit (w : Cell.Weights) (parameter : Nat → DenseArray α)
    (rows width size : Nat) : Prop where
  inputWeight : (parameter w.inputWeight).extents = [rows, width]
  inputBias : (parameter w.inputBias).extents = [rows]
  hiddenWeight : (parameter w.hiddenWeight).extents = [rows, size]
  hiddenBias : (parameter w.hiddenBias).extents = [rows]

section

variable (hidx : ∀ j ∈ idx, j < n)

include hidx

namespace Cell

variable {c : Cell} {size m start stop : Nat} {a a' b b' : DenseArray α} {v v' : CellValues α}

/-- One of the parts of the last axis. -/
theorem part_picks (size : Nat) (ha : Picks idx n [m] a a') (hstop : stop = start + size) :
    Agree (Picks idx n [size]) (a.slice start stop) (a'.slice start stop) := by
  have hsize : [stop - start] = [size] := by rw [hstop, Nat.add_sub_cancel_left]
  exact hsize ▸ Picks.slice (s := []) hidx ha

theorem gate_picks (ha : Picks idx n [m] a a') (hb : Picks idx n [m] b b') (start size : Nat) :
    Agree (Picks idx n [size]) (evaluateGate a b start size) (evaluateGate a' b' start size) := by
  refine (part_picks hidx size ha rfl).bind fun _ _ hinput => ?_
  refine (part_picks hidx size hb rfl).bind fun _ _ hhidden => ?_
  refine (Picks.broadcast hidx hinput hhidden).bind fun _ _ hsum => ?_
  exact .ok (hsum.map hidx _)

/-- One time step. -/
theorem step_picks (ha : Picks idx n [c.gates * size] a a') (hb : Picks idx n [c.gates * size] b b')
    (hv : v.Picks idx n size v') :
    Agree (CellValues.Picks idx n size) (c.evaluateStep size a b v)
      (c.evaluateStep size a' b' v') := by
  obtain ⟨hstate, hmemory⟩ := hv
  cases c with
  | rnn activation =>
    have hone : (rnn activation).gates * size = size := Nat.one_mul size
    rw [hone] at ha hb
    refine (Picks.broadcast hidx ha hb).bind fun _ _ hsum => ?_
    exact .ok ⟨hsum.map hidx _, hmemory⟩
  | lstm =>
    refine (Picks.broadcast hidx ha hb).bind fun _ _ hgates => ?_
    refine (part_picks hidx size hgates (by omega)).bind fun _ _ henter => ?_
    refine (part_picks hidx size hgates (by omega)).bind fun _ _ hforget => ?_
    refine (part_picks hidx size hgates (by omega)).bind fun _ _ hcandidate => ?_
    refine (part_picks hidx size hgates (by omega)).bind fun _ _ hleave => ?_
    refine (Picks.broadcast hidx (hforget.map hidx _) hmemory).bind fun _ _ hkept => ?_
    refine (Picks.broadcast hidx (henter.map hidx _) (hcandidate.map hidx _)).bind
      fun _ _ hnew => ?_
    refine (Picks.broadcast hidx hkept hnew).bind fun _ _ hmemory => ?_
    refine (Picks.broadcast hidx (hleave.map hidx _) (hmemory.map hidx _)).bind fun _ _ hstate => ?_
    exact .ok ⟨hstate, hmemory⟩
  | gru =>
    refine (gate_picks hidx ha hb 0 size).bind fun _ _ hreset => ?_
    refine (gate_picks hidx ha hb size size).bind fun _ _ hupdate => ?_
    refine (part_picks hidx size ha (by omega)).bind fun _ _ hinput => ?_
    refine (part_picks hidx size hb (by omega)).bind fun _ _ hhidden => ?_
    refine (Picks.broadcast hidx hreset hhidden).bind fun _ _ hkept => ?_
    refine (Picks.broadcast hidx hinput hkept).bind fun _ _ hsum => ?_
    have hcandidate := hsum.map hidx Scalar.tanh
    refine (Picks.broadcast hidx hstate hcandidate).bind fun _ _ hchange => ?_
    refine (Picks.broadcast hidx hupdate hchange).bind fun _ _ hblend => ?_
    refine (Picks.broadcast hidx hcandidate hblend).bind fun _ _ hstate => ?_
    exact .ok ⟨hstate, hmemory⟩

theorem stepAt_picks {time t : Nat} {weight bias : DenseArray α}
    (ha : Picks idx n [time, c.gates * size] a a')
    (hweight : weight.extents = [c.gates * size, size])
    (hbias : bias.extents = [c.gates * size]) (hv : v.Picks idx n size v') :
    Agree (CellValues.Picks idx n size) (c.evaluateStepAt size a weight bias v t)
      (c.evaluateStepAt size a' weight bias v' t) := by
  refine (Picks.select hidx ha).bind fun _ _ hinput => ?_
  refine (Picks.matmul (s := []) hidx hv.1 hweight).bind fun _ _ hproduct => ?_
  refine (Picks.broadcastRow (s := []) hidx hproduct hbias).bind fun _ _ hhidden => ?_
  exact step_picks hidx hinput hhidden hv

/-- What is known of the states after so many steps. -/
def Unrolls (idx : List Nat) (n size steps : Nat) (p p' : List (DenseArray α) × CellValues α) :
    Prop :=
  p.1.length = steps ∧ List.Forall₂ (Picks idx n [size]) p.1 p'.1 ∧ p.2.Picks idx n size p'.2

theorem unroll_picks {time : Nat} {weight bias : DenseArray α}
    (ha : Picks idx n [time, c.gates * size] a a')
    (hweight : weight.extents = [c.gates * size, size])
    (hbias : bias.extents = [c.gates * size]) (times : List Nat) (hv : v.Picks idx n size v') :
    Agree (Unrolls idx n size times.length) (c.evaluateUnroll size a weight bias times v)
      (c.evaluateUnroll size a' weight bias times v') := by
  induction times generalizing v v' with
  | nil => exact .ok ⟨rfl, .nil, hv⟩
  | cons t times ih =>
    refine (stepAt_picks hidx ha hweight hbias hv).bind fun _ _ hnext => ?_
    refine (ih hnext).bind fun _ _ hrest => ?_
    exact .ok ⟨congrArg (· + 1) hrest.1, .cons hnext.1 hrest.2.1, hrest.2.2⟩

/-- A run over sequences: from those of chosen samples it makes those of chosen samples. -/
theorem run_picks {time k : Nat} {w : Weights} {parameter : Nat → DenseArray α}
    (ha : Picks idx n [time, k] a a') (hw : w.Fit parameter (c.gates * size) k size) :
    Agree (fun p p' => Picks idx n [time, size] p.1 p'.1 ∧ p.2.Picks idx n size p'.2)
      (c.evaluateRun size n time w parameter a)
      (c.evaluateRun size idx.length time w parameter a') := by
  have hzero : CellValues.Picks idx n size
      (⟨.zeros [n, size], .zeros [n, size]⟩ : CellValues α)
      ⟨.zeros [idx.length, size], .zeros [idx.length, size]⟩ :=
    ⟨DenseArray.picks_full hidx [size] 0, DenseArray.picks_full hidx [size] 0⟩
  refine (Picks.matmul (s := [time]) hidx ha hw.inputWeight).bind fun _ _ hproduct => ?_
  refine (Picks.broadcastRow (s := [time]) hidx hproduct hw.inputBias).bind fun _ _ hinputs => ?_
  refine (unroll_picks hidx hinputs hw.hiddenWeight hw.hiddenBias (List.range time) hzero).bind ?_
  rintro ⟨states, last⟩ ⟨states', last'⟩ ⟨hlen, hstates, hlast⟩
  rw [List.length_range] at hlen
  subst hlen
  dsimp only at hstates hlast ⊢
  cases hstates with
  | nil =>
    refine Agree.bind (.ok (DenseArray.picks_full hidx [0, size] 0)) fun _ _ hsequence => ?_
    exact .ok ⟨hsequence, hlast⟩
  | cons hfirst hrest =>
    refine (Picks.stack hidx (List.cons_ne_nil _ _) (.cons hfirst hrest)).bind
      fun _ _ hsequence => ?_
    exact .ok ⟨hsequence, hlast⟩

end Cell

namespace RecurrentLayer

variable {r : RecurrentLayer} {time k : Nat} {x x' : DenseArray α} {parameter : Nat → DenseArray α}
  {ws : List Cell.Weights} {slots : List Nat}

/-- The parameters of one cell have the extents for inputs of a width. -/
def CellFit (r : RecurrentLayer) (parameter : Nat → DenseArray α) (width : Nat)
    (w : Cell.Weights) : Prop := w.Fit parameter (r.cell.gates * r.stateSize) width r.stateSize

/-- Sequences and last states of so many cells. -/
def Runs (r : RecurrentLayer) (idx : List Nat) (n time cells : Nat)
    (p p' : DenseArray α × List (CellValues α)) : Prop :=
  p.2.length = cells ∧ Picks idx n [time, r.stateSize] p.1 p'.1 ∧
    List.Forall₂ (CellValues.Picks idx n r.stateSize) p.2 p'.2

theorem cells_cons {w : Cell.Weights} {cells : Nat} (hx : Picks idx n [time, k] x x')
    (hw : r.CellFit parameter k w)
    (hrest : ∀ y y', Picks idx n [time, r.stateSize] y y' →
      Agree (r.Runs idx n time cells) (r.evaluateCells n time parameter ws y)
        (r.evaluateCells idx.length time parameter ws y')) :
    Agree (r.Runs idx n time (cells + 1)) (r.evaluateCells n time parameter (w :: ws) x)
      (r.evaluateCells idx.length time parameter (w :: ws) x') := by
  refine (Cell.run_picks hidx hx hw).bind fun _ _ hfirst => ?_
  refine (hrest _ _ hfirst.1).bind fun _ _ hothers => ?_
  exact .ok ⟨congrArg (· + 1) hothers.1, hothers.2.1, .cons hfirst.2 hothers.2.2⟩

theorem cells_picks (hx : Picks idx n [time, r.stateSize] x x')
    (hws : ∀ w ∈ ws, r.CellFit parameter r.stateSize w) :
    Agree (r.Runs idx n time ws.length) (r.evaluateCells n time parameter ws x)
      (r.evaluateCells idx.length time parameter ws x') := by
  induction ws generalizing x x' with
  | nil => exact .ok ⟨rfl, hx, .nil⟩
  | cons w ws ih =>
    obtain ⟨hw, hws⟩ := List.forall_mem_cons.mp hws
    exact cells_cons hidx hx hw fun y y' hy => ih hy hws

theorem outputs_sampled {y y' : DenseArray α} {last last' : List (CellValues α)}
    (hy : Picks idx n [time, r.stateSize] y y')
    (hlast : List.Forall₂ (CellValues.Picks idx n r.stateSize) last last')
    (hdepth : last.length = r.depth) :
    Agree (Sampled idx n) (r.evaluateOutputs y last) (r.evaluateOutputs y' last') := by
  have hne : last ≠ [] := List.ne_nil_of_length_pos (hdepth ▸ Nat.pos_of_ne_zero r.depth_pos)
  have hstack : ∀ f : CellValues α → DenseArray α,
      (∀ v v', CellValues.Picks idx n r.stateSize v v' →
        Picks idx n [r.stateSize] (f v) (f v')) →
      Agree (PicksSecond idx n) (DenseArray.stack (last.map f) 0)
        (DenseArray.stack (last'.map f) 0) :=
    fun f hf => Picks.stackFirst hidx (mt List.map_eq_nil_iff.mp hne)
      (List.forall₂_map_left_iff.mpr (List.forall₂_map_right_iff.mpr (hlast.imp hf)))
  unfold evaluateOutputs
  cases r.returnState with
  | false => exact .ok (.single hy)
  | true =>
    refine (hstack (·.state) fun _ _ h => h.1).bind fun _ _ hstate => ?_
    cases r.cell.hasMemory with
    | false => exact .ok ⟨⟨_, hy⟩, .cons hstate .nil⟩
    | true =>
      refine (hstack (·.memory) fun _ _ h => h.2).bind fun _ _ hmemory => ?_
      exact .ok ⟨⟨_, hy⟩, .cons hstate (.cons hmemory .nil)⟩

end RecurrentLayer

end

/-! ## Layers -/

namespace Layer

variable {l : Layer} {k : Nat} {slots : List Nat} {parameter : Nat → DenseArray α}
  {x x' : DenseArray α} {outs : List Extents} {s : Extents}

omit [Scalar α] in
theorem fitted_mem (hfit : l.Fitted k slots parameter) :
    ∀ p ∈ slots.zip (l.parameterExtents k), (.weight p.1, p.2) ∈
      slots.map fun i => (Tensor.weight i, (parameter i).extents) := by
  intro p hp
  have hslot : p.1 ∈ slots := (List.of_mem_zip (a := p.1) (b := p.2) hp).1
  exact List.mem_map.mpr ⟨p.1, hslot, by rw [hfit p hp]⟩

omit [Scalar α] in
theorem extents_of_mem {i : Nat}
    (h : (.weight i, s) ∈ slots.map fun i => (Tensor.weight i, (parameter i).extents)) :
    (parameter i).extents = s := by
  obtain ⟨_, -, hi⟩ := List.mem_map.mp h
  cases hi
  rfl

omit [Scalar α] in
theorem fitted_slotAt (hlen : slots.length = l.declared.length)
    (hfit : l.Fitted k slots parameter) {i : Nat} (hi : (l.parameterExtents k)[i]? = some s) :
    (parameter (slotAt slots i)).extents = s :=
  extents_of_mem (slotAt_mem (hlen.trans (length_parameterExtents l k).symm) (fitted_mem hfit) hi)

omit [Scalar α] in
theorem cellFit_of_context {r : RecurrentLayer} {width : Nat} {w : Cell.Weights}
    (hw : r.cellContext width w ⊆ slots.map fun i => (Tensor.weight i, (parameter i).extents)) :
    r.CellFit parameter width w := by
  have hmem : ∀ i s, (.weight i, s) ∈ r.cellContext width w → (parameter i).extents = s :=
    fun i s hi => extents_of_mem (hw hi)
  exact ⟨hmem _ _ (by simp [RecurrentLayer.cellContext, Cell.Weights.context]),
    hmem _ _ (by simp [RecurrentLayer.cellContext, Cell.Weights.context]),
    hmem _ _ (by simp [RecurrentLayer.cellContext, Cell.Weights.context]),
    hmem _ _ (by simp [RecurrentLayer.cellContext, Cell.Weights.context])⟩

omit [Scalar α] in
theorem fitted_weights {r : RecurrentLayer} (hlen : slots.length = (recurrent r).declared.length)
    (hfit : (recurrent r).Fitted k slots parameter) :
    ∃ w ws, RecurrentLayer.weights slots = w :: ws ∧ ws.length + 1 = r.depth ∧
      r.CellFit parameter k w ∧ ∀ w ∈ ws, r.CellFit parameter r.stateSize w := by
  obtain ⟨w, ws, hweights, hdepth, hw, hws⟩ := RecurrentLayer.exists_weights
    (hlen.trans (length_parameterExtents _ k).symm) (fitted_mem hfit)
  exact ⟨w, ws, hweights, hdepth, cellFit_of_context hw, fun w hw => cellFit_of_context (hws w hw)⟩

/-- Whether a layer takes the first axis of an array as that of the samples: a linear layer takes
the only axis of a vector for its features, and channels are not samples. -/
def Apart (l : Layer) (s : Extents) : Prop :=
  match l with
  | linear _ _ => s ≠ []
  | batchNorm axis _ _ => axis ≠ 0
  | _ => True

theorem convolve_eq_ok {w y : DenseArray α} {bias : Option (DenseArray α)}
    {stride padding : List Nat} {c : Convolution}
    (hfit : Convolution.fit x.extents w.extents stride padding = .ok c)
    (h : x.convolve w bias stride padding = .ok y) :
    y = c.apply x w bias ∧ ∀ b ∈ bias, b.extents = [c.filters] := by
  unfold DenseArray.convolve at h
  rw [hfit] at h
  cases bias with
  | none =>
    cases h
    exact ⟨rfl, nofun⟩
  | some b =>
    obtain ⟨hb, hvalue⟩ := guard_eq_ok_iff.mp h
    cases hvalue
    exact ⟨rfl, by simpa using hb⟩

omit [Scalar α] in
theorem windows?_length {c : ConvLayer} {input output : List Nat}
    (h : c.windows? input = some output) (hlen : input.length = c.kernel.length) :
    output.length = input.length := by
  have hall := (mapM_eq_some_iff.mp h).length_eq
  have hstride := c.stride_length
  have hpadding := c.padding_length
  simp only [List.length_zip] at hall
  omega

/-- A layer computes every sample by itself. -/
theorem evaluateOn_sampled (hidx : ∀ j ∈ idx, j < n) (hlen : slots.length = l.declared.length)
    (hfit : l.Fitted k slots parameter) (hx : Picks idx n s x x') (hapart : l.Apart s)
    (hmakes : l.Makes k false x outs) :
    Agree (Sampled idx n) (l.evaluateOn slots parameter x) (l.evaluateOn slots parameter x') := by
  cases l with
  | linear units bias =>
    obtain ⟨hlast, -, -⟩ := hmakes
    obtain ⟨s, rfl⟩ : ∃ s₀, s = s₀ ++ [k] := by
      rw [hx.extents] at hlast
      obtain ⟨l, hl⟩ := List.getLast?_eq_some_iff.mp hlast
      cases l with
      | nil => exact absurd (List.cons.inj hl).2 hapart
      | cons _ s₀ => exact ⟨s₀, (List.cons.inj hl).2⟩
    have hweight := fitted_slotAt hlen hfit (i := 0) rfl
    refine (Picks.matmul hidx hx hweight).bind fun _ _ hy => ?_
    cases bias with
    | false => exact .ok (.single hy)
    | true =>
      have hbias := fitted_slotAt hlen hfit (i := 1) rfl
      exact (Picks.broadcastRow hidx hy hbias).bind fun _ _ hz => .ok (.single hz)
  | conv c =>
    obtain ⟨batch, input, output, hextents, harity, hwindows, -⟩ := hmakes
    rw [hx.extents] at hextents
    cases hextents
    have hweight := fitted_slotAt hlen hfit (i := 0) rfl
    have hfits : ∀ m, Convolution.fit (m :: k :: input) (c.filters :: k :: c.kernel) c.stride
        c.padding = .ok ⟨m, k, c.filters, input, c.kernel, c.stride, c.padding, output⟩ :=
      fun m => ConvLayer.fit_iff.mpr ⟨m, input, output, rfl, harity, hwindows, rfl⟩
    have hregular : Convolution.Regular
        ⟨n, k, c.filters, input, c.kernel, c.stride, c.padding, output⟩ :=
      ⟨harity.symm, c.stride_length.trans harity.symm, c.padding_length.trans harity.symm,
        windows?_length hwindows harity⟩
    refine Agree.bind (r := Picks idx n (c.filters :: output)) ?_ fun _ _ hy => .ok (.single hy)
    intro y y' hy hy'
    obtain ⟨rfl, hbias⟩ := convolve_eq_ok (by rw [hx.extents, hweight, hfits]) hy
    obtain ⟨rfl, -⟩ := convolve_eq_ok (by rw [hx.picked, hweight, hfits]) hy'
    exact Convolution.picks_apply hidx hregular hweight hx hbias
  | batchNorm axis epsilon momentum =>
    exact (Picks.normalize hidx hx hapart).bind fun _ _ hy => .ok (.single hy)
  | dropout rate => exact .ok (.single hx)
  | flatten =>
    unfold evaluateOn
    dsimp only
    rw [hx.extents, hx.picked]
    exact (Picks.flatten hidx hx).bind fun _ _ hy => .ok (.single hy)
  | activation a => exact .ok (.single (hx.map hidx a.function))
  | embedding rows width | wordEmbedding rows width =>
    have htable := fitted_slotAt hlen hfit (i := 0) rfl
    exact (Picks.lookUp hidx hx htable).bind fun _ _ hy => .ok (.single hy)
  | recurrent r =>
    obtain ⟨batch, time, hextents, -⟩ := hmakes
    rw [hx.extents] at hextents
    cases hextents
    obtain ⟨w, ws, hweights, hdepth, hw, hws⟩ := fitted_weights hlen hfit
    unfold evaluateOn RecurrentLayer.evaluate
    dsimp only
    rw [hx.extents, hx.picked, hweights]
    dsimp only
    refine (RecurrentLayer.cells_cons hidx hx hw fun y y' hy =>
      RecurrentLayer.cells_picks hidx hy hws).bind fun _ _ hruns => ?_
    exact RecurrentLayer.outputs_sampled hidx hruns.2.1 hruns.2.2 (hruns.1.trans hdepth)

/-! ## For how many samples there are outputs -/

omit [Scalar α] in
theorem addressable_leading {m : Nat} (h : Extents.addressable (n :: s) = true) (hm : m ≤ n) :
    Extents.addressable (m :: s) = true := by
  rw [Extents.addressable_iff] at h ⊢
  rw [List.map_cons, List.prod_cons] at h ⊢
  have hmax : max m 1 ≤ max n 1 := by omega
  exact Nat.lt_of_le_of_lt (Nat.mul_le_mul_right _ hmax) h

omit [Scalar α] in
theorem addressable_second {d : Nat} :
    Extents.addressable (d :: n :: s) = Extents.addressable (n :: d :: s) := by
  have hinsert : (d :: s).insertIdx 1 n = d :: n :: s := rfl
  rw [← hinsert]
  exact Extents.addressable_insertIdx n (by simp)

/-- What a layer makes of some samples it makes of others of the same extents: with as many, or as
many as there is room for. -/
theorem Makes.transfer {m : Nat} (h : l.Makes k false x outs) (hx : x.extents = n :: s)
    (hx' : x'.extents = m :: s) (hzero : n = 0 → m = 0)
    (hroom : n < m → ∀ t ∈ l.allocates (m :: s), t.addressable = true)
    (hrows : l.findsRows x' = true) (hapart : l.Apart s) : ∃ outs', l.Makes k false x' outs' := by
  have hfits : ∀ t, Extents.addressable (n :: t) = true → (m :: t) ∈ l.allocates (m :: s) →
      Extents.addressable (m :: t) = true := by
    intro t ht hmem
    rcases Nat.lt_or_ge n m with hlt | hge
    · exact hroom hlt _ hmem
    · exact addressable_leading ht hge
  have hcontracts : ∀ t c, DenseArray.contractsTo (n :: t) c = true →
      (m :: t) ∈ l.allocates (m :: s) → DenseArray.contractsTo (m :: t) c = true := by
    intro t c ht hmem
    obtain ⟨haddressable, hterms⟩ := DenseArray.contractsTo_iff.mp ht
    refine DenseArray.contractsTo_iff.mpr
      ⟨hfits t haddressable hmem, hterms.imp_right fun hsize => ?_⟩
    rcases Nat.mul_eq_zero.mp hsize with hn | hsize
    · rw [hzero hn, Extents.size, Nat.zero_mul]
    · rw [Extents.size, hsize, Nat.mul_zero]
  unfold Makes at h ⊢
  rw [hx] at h
  rw [hx']
  cases l with
  | linear units bias =>
    obtain ⟨hlast, hcontract, -⟩ := h
    have hlast' : ∀ c, (c :: s).getLast? = s.getLast? := fun c => by
      obtain ⟨d, t, rfl⟩ := List.exists_cons_of_ne_nil hapart
      rw [List.getLast?_cons_cons]
    have hdrop : ∀ c : Nat, (c :: s).dropLast ++ [units] = c :: (s.dropLast ++ [units]) :=
      fun c => by rw [List.dropLast_cons_of_ne_nil hapart, List.cons_append]
    rw [hdrop] at hcontract
    refine ⟨_, by rw [hlast', ← hlast' n, hlast], ?_, rfl⟩
    rw [hdrop]
    exact hcontracts _ _ hcontract (by rw [allocates, hdrop]; exact List.mem_cons_self)
  | conv c =>
    obtain ⟨_, input, output, hextents, harity, hwindows, -⟩ := h
    cases hextents
    exact ⟨_, m, input, output, rfl, harity, hwindows, rfl⟩
  | batchNorm axis epsilon momentum =>
    obtain ⟨below, rfl⟩ := Nat.exists_eq_succ_of_ne_zero hapart
    exact ⟨_, h.1, rfl⟩
  | dropout rate => exact ⟨_, by simp, rfl⟩
  | flatten =>
    obtain ⟨_, rest, hextents, haddressable, -⟩ := h
    cases hextents
    exact ⟨_, m, _, rfl, hfits _ haddressable List.mem_cons_self, rfl⟩
  | activation a => exact ⟨_, rfl⟩
  | embedding rows width | wordEmbedding rows width =>
    exact ⟨_, hrows, hfits _ h.2.1 List.mem_cons_self, rfl⟩
  | recurrent r =>
    obtain ⟨_, time, hextents, hcontract, hstates, -⟩ := h
    cases hextents
    refine ⟨_, m, time, rfl, hcontracts _ _ hcontract List.mem_cons_self, fun hreturn => ?_, rfl⟩
    rcases Nat.lt_or_ge n m with hlt | hge
    · exact hroom hlt _ (.tail _ List.mem_cons_self)
    · have hstates := hstates hreturn
      rw [addressable_second] at hstates ⊢
      exact addressable_leading hstates hge

theorem Makes.findsRows (h : l.Makes k false x outs) : l.findsRows x = true := by
  cases l with
  | embedding rows width | wordEmbedding rows width => exact h.1
  | _ => rfl

end Layer

namespace DenseArray

variable {x x' : DenseArray α} {rows : Nat} {s : Extents}

omit [Scalar α] in
theorem mem_toList [Zero α] {v : α} :
    v ∈ x.toList ↔ ∃ i, x.extents.Contains i ∧ x.get i = v := by
  have hentry : ∀ p (hp : p < x.values.size), x.entry p = x.values[p] := fun p hp => by
    rw [entry, Array.getElem?_eq_getElem hp, Option.getD_some]
  rw [toList, Array.mem_toList_iff, Array.mem_iff_getElem]
  constructor
  · rintro ⟨p, hp, rfl⟩
    have hlt : p < x.extents.size := x.size_eq ▸ hp
    exact ⟨_, Extents.contains_unravel hlt, by rw [← entry_eq_get hlt, hentry p hp]⟩
  · rintro ⟨i, hi, rfl⟩
    have hp : x.extents.ravel i < x.values.size := x.size_eq ▸ Extents.ravel_lt_size hi
    exact ⟨_, hp, (hentry _ hp).symm⟩

theorem namesRows_iff_get : x.namesRows rows = true ↔
    ∀ i, x.extents.Contains i → (Scalar.toNat? (x.get i)).any (· < rows) = true := by
  rw [namesRows, List.all_eq_true]
  constructor
  · exact fun h i hi => h _ (mem_toList.mpr ⟨i, hi, rfl⟩)
  · rintro h v hv
    obtain ⟨i, hi, rfl⟩ := mem_toList.mp hv
    exact h i hi

theorem Picks.namesRows (hidx : ∀ j ∈ idx, j < n) (hx : Picks idx n s x x')
    (h : x.namesRows rows = true) : x'.namesRows rows = true := by
  rw [namesRows_iff_get, hx.extents] at h
  rw [namesRows_iff_get, hx.picked]
  intro i hi
  obtain ⟨j, i, rfl, hj, hi⟩ := Extents.exists_of_contains_cons hi
  rw [hx.get j i hj hi]
  exact h _ (Picks.contains hidx hj hi)

theorem namesRows_of_singles (hx : x.extents = n :: s)
    (h : ∀ j < n, (x.selectFirst [j]).namesRows rows = true) : x.namesRows rows = true := by
  rw [namesRows_iff_get, hx]
  intro i hi
  obtain ⟨j, i, rfl, hj, hi⟩ := Extents.exists_of_contains_cons hi
  have hsingle := selectFirst_picks [j] hx
  have hrows := h j hj
  rw [namesRows_iff_get, hsingle.picked] at hrows
  have hget := hrows (0 :: i) ⟨Nat.one_pos, hi⟩
  rwa [hsingle.get 0 i Nat.one_pos hi] at hget

end DenseArray

namespace Layer

variable {l : Layer} {k : Nat} {x x' : DenseArray α} {outs : List Extents} {s : Extents}

/-- A layer that makes outputs makes them for chosen samples too, if there is room. -/
theorem Makes.picked (h : l.Makes k false x outs) (hidx : ∀ j ∈ idx, j < n)
    (hx : Picks idx n s x x') (hapart : l.Apart s)
    (hroom : n < idx.length → ∀ t ∈ l.allocates (idx.length :: s), t.addressable = true) :
    ∃ outs', l.Makes k false x' outs' := by
  refine h.transfer hx.extents hx.picked (fun hn => ?_) hroom ?_ hapart
  · cases idx with
    | nil => rfl
    | cons j idx => exact absurd (hidx j List.mem_cons_self) (by omega)
  · have hrows := h.findsRows
    cases l with
    | embedding rows width | wordEmbedding rows width => exact hx.namesRows hidx hrows
    | _ => rfl

/-- A layer that makes outputs for every sample alone makes them for all, if there is room. -/
theorem makes_of_singles (hx : x.extents = n :: s) (hn : n ≠ 0) (hapart : l.Apart s)
    (h : ∀ j < n, ∃ outs, l.Makes k false (x.selectFirst [j]) outs)
    (hroom : ∀ t ∈ l.allocates (n :: s), t.addressable = true) :
    ∃ outs, l.Makes k false x outs := by
  obtain ⟨outs, hfirst⟩ := h 0 (Nat.pos_of_ne_zero hn)
  refine hfirst.transfer (DenseArray.selectFirst_picks [0] hx).picked hx
    (fun hone => absurd hone Nat.one_ne_zero) (fun _ => hroom) ?_ hapart
  have hrows : ∀ j < n, l.findsRows (x.selectFirst [j]) = true := fun j hj => by
    obtain ⟨outs, hmakes⟩ := h j hj
    exact hmakes.findsRows
  cases l with
  | embedding rows width | wordEmbedding rows width =>
    exact DenseArray.namesRows_of_singles hx hrows
  | _ => rfl

end Layer

end NeuralNet
