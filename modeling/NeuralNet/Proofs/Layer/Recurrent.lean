import NeuralNet.Layer.Forward
import NeuralNet.Proofs.Layer.Parameters
import NeuralNet.Proofs.Tape.Making

/-!
# What recurrent layers make

Only the first product, of the input and the input weights, asks something of the input; if it is
made all that follows is made too, up to the states that are stacked at the end. So a recurrent
layer makes its outputs just if the features of the input are as many as the weights take, and if
the gates of all steps, and the stacked states if they are asked for, can be addressed.
-/

namespace NeuralNet

open Run

/-! ## Sizes -/

namespace DenseArray

variable {s : Extents} {k : Nat}

theorem contractsTo_of_ne_zero (hs : s.addressable = true) (hk : k ≠ 0) :
    contractsTo s k = true :=
  contractsTo_iff.mpr ⟨hs, .inl hk⟩

end DenseArray

namespace Extents

variable {batch time rows size : Nat}

/-- The gates of one step take no more room than those of all steps. -/
theorem addressable_step (h : addressable [batch, time, rows] = true) :
    addressable [batch, rows] = true := by
  have haxis : 1 ≤ [batch, rows].length := Nat.le_add_left _ _
  have hperm := addressable_insertIdx time haxis
  exact addressable_of_cons (hperm.symm.trans h)

/-- The states take no more room than the gates. -/
theorem addressable_states (h : addressable [batch, time, rows] = true) (hsize : size ≤ rows) :
    addressable [time, batch, size] = true := by
  rw [addressable_iff] at h ⊢
  simp only [List.map_cons, List.map_nil, List.prod_cons, List.prod_nil, Nat.mul_one] at h ⊢
  have hrows : max size 1 ≤ max rows 1 := by omega
  calc max time 1 * (max batch 1 * max size 1)
      = max batch 1 * (max time 1 * max size 1) := Nat.mul_left_comm _ _ _
    _ ≤ max batch 1 * (max time 1 * max rows 1) :=
      Nat.mul_le_mul_left _ (Nat.mul_le_mul_left _ hrows)
    _ < 0x8000000000000000 := h

end Extents

variable {α : Type} [Scalar α]

/-! ## Steps -/

/-- What is known of a state. -/
def CellState.context (s : CellState) (batch size : Nat) : Context :=
  [(s.state, [batch, size]), (s.memory, [batch, size])]

omit [Scalar α] in
/-- A state may be given at the end if both arrays are known. -/
theorem CellState.gives {s : CellState} {Γ Γ' : Context} {batch size : Nat}
    (hstate : (s.state, [batch, size]) ∈ Γ') (hmemory : (s.memory, [batch, size]) ∈ Γ')
    (hsub : Γ ⊆ Γ') :
    Ends Γ' (pure s : Run α CellState) (Given Γ fun s' Δ => Δ = s'.context batch size) :=
  Gives.pure rfl (List.cons_subset.mpr ⟨hstate, List.cons_subset.mpr ⟨hmemory, hsub⟩⟩)

namespace Cell

variable {c : Cell} {Γ : Context} {a : Tensor} {batch time size m start stop : Nat}
  {input hidden : Tensor} {s : CellState}

theorem gates_pos (c : Cell) : 0 < c.gates := by
  cases c with
  | rnn => exact Nat.one_pos
  | lstm | gru => decide

/-- One of the parts of the last axis. -/
theorem part_makes (batch size m : Nat) (ha : (a, [batch, m]) ∈ Γ) (hstop : stop = start + size)
    (hm : stop ≤ m) : Makes Γ (a.slice start stop : Run α Tensor) [batch, size] := by
  have hsize : stop - start = size := by omega
  have hmakes := Makes.slice (α := α) (s := [batch]) ha (hstop ▸ Nat.le_add_right start size) hm
  rwa [hsize] at hmakes

theorem gate_makes (m : Nat) (hinput : (input, [batch, m]) ∈ Γ) (hhidden : (hidden, [batch, m]) ∈ Γ)
    (hm : start + size ≤ m) :
    Makes Γ (gate input hidden start size : Run α Tensor) [batch, size] := by
  refine Makes.bind (part_makes batch size m hinput rfl hm) fun a => ?_
  refine Makes.bind (part_makes batch size m (.tail _ hhidden) rfl hm) fun b => ?_
  refine Makes.bind (Makes.add (s := [batch, size]) (by simp) (by simp)
    (Extents.broadcast?_self _)) fun sum => ?_
  exact Gives.forget (Makes.sigmoid List.mem_cons_self) fun p hp => by simp [hp]

/-- A step makes a state from a state. -/
theorem step_gives (hinput : (input, [batch, c.gates * size]) ∈ Γ)
    (hhidden : (hidden, [batch, c.gates * size]) ∈ Γ) (hs : s.context batch size ⊆ Γ) :
    Gives Γ (c.step size input hidden s : Run α CellState) fun s' Δ => Δ = s'.context batch size := by
  obtain ⟨hstate, hmemory⟩ : (s.state, [batch, size]) ∈ Γ ∧ (s.memory, [batch, size]) ∈ Γ := by
    simpa [CellState.context] using hs
  have hself := Extents.broadcast?_self
  cases c with
  | rnn activation =>
    have hone : (rnn activation).gates * size = size := Nat.one_mul size
    rw [hone] at hinput hhidden
    refine Makes.bind (Makes.add hinput hhidden (hself _)) fun sum => ?_
    refine Makes.bind (Makes.activation (s := [batch, size]) activation (by simp)) fun state => ?_
    exact CellState.gives List.mem_cons_self (by simp [hmemory]) fun p hp => by simp [hp]
  | lstm =>
    have hfour : lstm.gates * size = 4 * size := rfl
    rw [hfour] at hinput hhidden
    refine Makes.bind (Makes.add hinput hhidden (hself _)) fun gates => ?_
    refine Makes.bind (part_makes batch size (4 * size) (by simp) (by omega) (by omega)) fun a => ?_
    refine Makes.bind (Makes.sigmoid (s := [batch, size]) (by simp)) fun enter => ?_
    refine Makes.bind (part_makes batch size (4 * size) (by simp) (by omega) (by omega)) fun b => ?_
    refine Makes.bind (Makes.sigmoid (s := [batch, size]) (by simp)) fun forget => ?_
    refine Makes.bind (part_makes batch size (4 * size) (by simp) (by omega) (by omega)) fun c => ?_
    refine Makes.bind (Makes.tanh (s := [batch, size]) (by simp)) fun candidate => ?_
    refine Makes.bind (part_makes batch size (4 * size) (by simp) (by omega) (by omega)) fun d => ?_
    refine Makes.bind (Makes.sigmoid (s := [batch, size]) (by simp)) fun leave => ?_
    refine Makes.bind (Makes.mul (s := [batch, size]) (by simp) (by simp [hmemory]) (hself _))
      fun kept => ?_
    refine Makes.bind (Makes.mul (s := [batch, size]) (by simp) (by simp) (hself _)) fun new => ?_
    refine Makes.bind (Makes.add (s := [batch, size]) (by simp) (by simp) (hself _)) fun memory => ?_
    refine Makes.bind (Makes.tanh (s := [batch, size]) (by simp)) fun squashed => ?_
    refine Makes.bind (Makes.mul (s := [batch, size]) (by simp) (by simp) (hself _)) fun state => ?_
    exact CellState.gives List.mem_cons_self (by simp) fun p hp => by simp [hp]
  | gru =>
    have hthree : gru.gates * size = 3 * size := rfl
    rw [hthree] at hinput hhidden
    refine Makes.bind (gate_makes (3 * size) hinput hhidden (by omega)) fun reset => ?_
    refine Makes.bind (gate_makes (3 * size) (.tail _ hinput) (.tail _ hhidden) (by omega))
      fun update => ?_
    refine Makes.bind (part_makes batch size (3 * size) (by simp [hinput]) (by omega) (by omega))
      fun a => ?_
    refine Makes.bind (part_makes batch size (3 * size) (by simp [hhidden]) (by omega) (by omega))
      fun b => ?_
    refine Makes.bind (Makes.mul (s := [batch, size]) (by simp) (by simp) (hself _)) fun b => ?_
    refine Makes.bind (Makes.add (s := [batch, size]) (by simp) (by simp) (hself _)) fun sum => ?_
    refine Makes.bind (Makes.tanh (s := [batch, size]) (by simp)) fun candidate => ?_
    refine Makes.bind (Makes.sub (s := [batch, size]) (by simp [hstate]) (by simp) (hself _))
      fun change => ?_
    refine Makes.bind (Makes.mul (s := [batch, size]) (by simp) (by simp) (hself _)) fun kept => ?_
    refine Makes.bind (Makes.add (s := [batch, size]) (by simp) (by simp) (hself _)) fun state => ?_
    exact CellState.gives List.mem_cons_self (by simp [hmemory]) fun p hp => by simp [hp]

/-- Time step by time step. -/
theorem stepAt_gives {inputs hiddenWeight hiddenBias : Tensor} {t : Nat} (ht : t < time)
    (hinputs : (inputs, [batch, time, c.gates * size]) ∈ Γ)
    (hweight : (hiddenWeight, [c.gates * size, size]) ∈ Γ)
    (hbias : (hiddenBias, [c.gates * size]) ∈ Γ) (hs : s.context batch size ⊆ Γ)
    (hcontract : DenseArray.contractsTo [batch, c.gates * size] size = true) :
    Gives Γ (c.stepAt size inputs hiddenWeight hiddenBias s t : Run α CellState) fun s' Δ =>
      Δ = s'.context batch size := by
  have hstate : (s.state, [batch, size]) ∈ Γ := hs List.mem_cons_self
  refine Makes.bind (Makes.select 1 hinputs (by simp) ht) fun input => ?_
  refine Makes.bind (Makes.matmul (.tail _ hstate) (.tail _ hweight) rfl hcontract) fun product => ?_
  refine Makes.bind (Makes.add (s := [batch, c.gates * size]) List.mem_cons_self
    (by simp [hbias]) (Extents.broadcast?_last [batch] _)) fun hidden => ?_
  refine Gives.forget (step_gives (by simp) (by simp) fun p hp => ?_) fun p hp => by simp [hp]
  exact .tail _ (.tail _ (.tail _ (hs hp)))

theorem unroll_gives {inputs hiddenWeight hiddenBias : Tensor} {times : List Nat}
    (htimes : ∀ t ∈ times, t < time) (hinputs : (inputs, [batch, time, c.gates * size]) ∈ Γ)
    (hweight : (hiddenWeight, [c.gates * size, size]) ∈ Γ)
    (hbias : (hiddenBias, [c.gates * size]) ∈ Γ) (hs : s.context batch size ⊆ Γ)
    (hcontract : DenseArray.contractsTo [batch, c.gates * size] size = true) :
    Gives Γ (c.unroll size inputs hiddenWeight hiddenBias times s : Run α (List Tensor × CellState))
      fun p Δ => p.1.length = times.length ∧
        Δ = p.1.map (·, [batch, size]) ++ p.2.context batch size := by
  -- the context grows by a state with every step
  induction times generalizing s Γ with
  | nil => exact Gives.pure ⟨rfl, rfl⟩ (List.append_subset.mpr ⟨hs, List.Subset.refl _⟩)
  | cons t times ih =>
    obtain ⟨ht, htimes⟩ := List.forall_mem_cons.mp htimes
    refine Gives.bind (stepAt_gives ht hinputs hweight hbias hs hcontract) ?_
    rintro next _ rfl
    have hkeep : Γ ⊆ next.context batch size ++ Γ := List.subset_append_right _ _
    have hrest := ih (s := next) htimes (hkeep hinputs) (hkeep hweight) (hkeep hbias)
      (List.subset_append_left _ _)
    refine Gives.bind hrest ?_
    rintro ⟨states, last⟩ _ ⟨hlen, rfl⟩
    refine Gives.pure ⟨congrArg (· + 1) hlen, rfl⟩ fun p hp => ?_
    have hfirst : next.context batch size =
        [(next.state, [batch, size]), (next.memory, [batch, size])] := rfl
    simp only [List.map_cons, List.cons_append, List.mem_cons, List.mem_append, hfirst] at hp ⊢
    tauto

/-- The four parameters of a cell for inputs of a width. -/
def Weights.context (w : Weights) (rows width size : Nat) : Context :=
  [(.weight w.inputWeight, [rows, width]), (.weight w.inputBias, [rows]),
    (.weight w.hiddenWeight, [rows, size]), (.weight w.hiddenBias, [rows])]

theorem run_gives {w : Weights} {x : Tensor} {k : Nat} (hx : (x, [batch, time, k]) ∈ Γ)
    (hw : w.context (c.gates * size) k size ⊆ Γ) (hsize : size ≠ 0)
    (hcontract : DenseArray.contractsTo [batch, time, c.gates * size] k = true) :
    Gives Γ (c.run size batch time w x : Run α (Tensor × CellState)) fun p Δ =>
      Δ = (p.1, [batch, time, size]) :: p.2.context batch size := by
  obtain ⟨haddressable, -⟩ := DenseArray.contractsTo_iff.mp hcontract
  have hstep : DenseArray.contractsTo [batch, c.gates * size] size = true :=
    DenseArray.contractsTo_of_ne_zero (Extents.addressable_step haddressable) hsize
  have hstates : Extents.addressable [time, batch, size] = true :=
    Extents.addressable_states haddressable (Nat.le_mul_of_pos_left size c.gates_pos)
  obtain ⟨hweight, hbias, hhidden, hhiddenBias⟩ :
      (.weight w.inputWeight, [c.gates * size, k]) ∈ Γ ∧ (.weight w.inputBias, [c.gates * size]) ∈ Γ ∧
        (.weight w.hiddenWeight, [c.gates * size, size]) ∈ Γ ∧
        (.weight w.hiddenBias, [c.gates * size]) ∈ Γ := by
    simpa [Weights.context] using hw
  refine Ends.weight hweight (Makes.bind (Makes.matmul hx hweight rfl hcontract) fun product => ?_)
  refine Ends.weight (.tail _ hbias) (Makes.bind (Makes.add (s := [batch, time, c.gates * size])
    List.mem_cons_self (.tail _ hbias) (Extents.broadcast?_last [batch, time] _)) fun inputs => ?_)
  refine Ends.weight (s := [c.gates * size, size]) (by simp [hhidden]) ?_
  refine Ends.weight (s := [c.gates * size]) (by simp [hhiddenBias]) ?_
  refine Makes.bind (Makes.leaf (s := [batch, size]) false rfl) fun state => ?_
  refine Makes.bind (Makes.leaf (s := [batch, size]) false rfl) fun memory => ?_
  refine Gives.bind (unroll_gives (fun t (ht : t ∈ List.range time) => List.mem_range.mp ht)
    (by simp) (by simp [hhidden]) (by simp [hhiddenBias]) (by simp [CellState.context]) hstep) ?_
  rintro ⟨states, last⟩ _ ⟨hlen, rfl⟩
  rw [List.length_range] at hlen
  have hend : ∀ sequence Γ', Γ ⊆ Γ' → last.context batch size ⊆ Γ' →
      Ends ((sequence, [batch, time, size]) :: Γ') (pure (sequence, last) : Run α _)
        (Given Γ fun p Δ => Δ = (p.1, [batch, time, size]) :: p.2.context batch size) := by
    intro sequence Γ' hsub hlast
    refine Gives.pure rfl (List.cons_subset_cons _ ?_)
    exact List.append_subset.mpr ⟨hlast, hsub⟩
  have hlast : ∀ Γ', last.context batch size ⊆
      states.map (·, [batch, size]) ++ last.context batch size ++ Γ' := fun Γ' p hp => by simp [hp]
  cases states with
  | nil =>
    obtain rfl : 0 = time := hlen
    refine Makes.bind (Makes.leaf (s := [batch, 0, size]) false rfl) fun sequence => ?_
    exact hend sequence _ (fun p hp => by simp [hp]) (hlast _)
  | cons first rest =>
    refine Makes.bind (Makes.stack (s := [batch, size]) (List.cons_ne_nil first rest)
      (fun t ht => ?_) (by simp) (hlen.symm ▸ hstates)) fun sequence => ?_
    · exact List.mem_append_left _ (List.mem_append_left _ (List.mem_map.mpr ⟨t, ht, rfl⟩))
    · rw [show (first :: rest).length = time from hlen]
      exact hend sequence _ (fun p hp => by simp [hp]) (hlast _)

theorem run_stuck {w : Weights} {x : Tensor} {k f : Nat} (hx : (x, [batch, time, f]) ∈ Γ)
    (hw : w.context (c.gates * size) k size ⊆ Γ)
    (h : ¬(f = k ∧ DenseArray.contractsTo [batch, time, c.gates * size] k = true)) :
    Stuck Γ (c.run size batch time w x : Run α (Tensor × CellState)) := by
  refine Ends.weight (hw List.mem_cons_self) ?_
  refine Stuck.bind (Stuck.matmul hx (hw List.mem_cons_self) fun hmakes => h ?_) _
  exact ⟨Option.some.inj hmakes.1, hmakes.2⟩

end Cell

/-! ## Cells on top of each other -/

namespace RecurrentLayer

variable {r : RecurrentLayer} {Γ : Context} {x : Tensor} {batch time k f : Nat}
  {ws : List Cell.Weights} {slots : List Nat}

/-- The parameters of one cell. -/
def cellContext (r : RecurrentLayer) (width : Nat) (w : Cell.Weights) : Context :=
  w.context (r.cell.gates * r.stateSize) width r.stateSize

/-- The last states. -/
def lastContext (r : RecurrentLayer) (batch : Nat) (last : List CellState) : Context :=
  last.flatMap fun s => s.context batch r.stateSize

/-- What cells give: the sequence of the topmost one, and the last state of each. -/
def Unrolled (r : RecurrentLayer) (batch time cells : Nat) (p : Tensor × List CellState)
    (Δ : Context) : Prop :=
  p.2.length = cells ∧ Δ = (p.1, [batch, time, r.stateSize]) :: r.lastContext batch p.2

theorem runCells_cons {w : Cell.Weights} {cells : Nat} (hx : (x, [batch, time, k]) ∈ Γ)
    (hw : r.cellContext k w ⊆ Γ)
    (hcontract : DenseArray.contractsTo [batch, time, r.cell.gates * r.stateSize] k = true)
    (hrest : ∀ y Γ', Γ ⊆ Γ' → (y, [batch, time, r.stateSize]) ∈ Γ' →
      Gives Γ' (r.runCells batch time ws y : Run α _) (r.Unrolled batch time cells)) :
    Gives Γ (r.runCells batch time (w :: ws) x : Run α _) (r.Unrolled batch time (cells + 1)) := by
  refine Gives.bind (Cell.run_gives hx hw r.stateSize_pos hcontract) ?_
  rintro ⟨y, last⟩ _ rfl
  refine Gives.bind (hrest y _ (List.subset_append_right _ _) List.mem_cons_self) ?_
  rintro ⟨z, others⟩ _ ⟨hlen, rfl⟩
  refine Gives.pure ⟨congrArg (· + 1) hlen, rfl⟩ fun p hp => ?_
  simp only [lastContext, List.flatMap_cons, List.cons_append, List.mem_cons, List.mem_append] at hp ⊢
  tauto

/-- Above the first cell every cell takes states and makes states. -/
theorem runCells_gives (hx : (x, [batch, time, r.stateSize]) ∈ Γ)
    (hws : ∀ w ∈ ws, r.cellContext r.stateSize w ⊆ Γ)
    (haddressable : Extents.addressable [batch, time, r.cell.gates * r.stateSize] = true) :
    Gives Γ (r.runCells batch time ws x : Run α _) (r.Unrolled batch time ws.length) := by
  induction ws generalizing x Γ with
  | nil => exact Gives.pure ⟨rfl, rfl⟩ (List.cons_subset.mpr ⟨hx, List.Subset.refl _⟩)
  | cons w ws ih =>
    obtain ⟨hw, hws⟩ := List.forall_mem_cons.mp hws
    refine runCells_cons hx hw (DenseArray.contractsTo_of_ne_zero haddressable r.stateSize_pos) ?_
    exact fun y Γ' hkeep hy => ih hy fun w hw => List.Subset.trans (hws w hw) hkeep

/-- The slots of all cells, from the lowest to the topmost. -/
theorem forall₂_weights {heights : List Nat}
    (hlen : slots.length = (heights.flatMap (r.cellExtents k)).length)
    (hslots : ∀ p ∈ slots.zip (heights.flatMap (r.cellExtents k)), (.weight p.1, p.2) ∈ Γ) :
    List.Forall₂ (fun w height => r.cellContext (if height = 0 then k else r.stateSize) w ⊆ Γ)
      (weights slots) heights := by
  induction heights generalizing slots with
  | nil =>
    obtain rfl := List.length_eq_zero_iff.mp hlen
    exact .nil
  | cons height heights ih =>
    match slots, hlen with
    | a :: b :: c :: d :: rest, hlen =>
      have hcell : (height :: heights).flatMap (r.cellExtents k) =
          r.cellExtents k height ++ heights.flatMap (r.cellExtents k) := List.flatMap_cons
      rw [hcell] at hlen hslots
      refine .cons ?_ (ih (by simpa [cellExtents] using hlen) fun p hp => hslots p ?_)
      · simp only [cellExtents, List.cons_append, List.nil_append, List.zip_cons_cons,
          List.forall_mem_cons] at hslots
        obtain ⟨ha, hb, hc, hd, -⟩ := hslots
        simp [cellContext, Cell.Weights.context, ha, hb, hc, hd]
      · simp [cellExtents, hp]

theorem exists_weights
    (hlen : slots.length = ((Layer.recurrent r).parameterExtents k).length)
    (hslots : ∀ p ∈ slots.zip ((Layer.recurrent r).parameterExtents k), (.weight p.1, p.2) ∈ Γ) :
    ∃ w ws, weights slots = w :: ws ∧ ws.length + 1 = r.depth ∧ r.cellContext k w ⊆ Γ ∧
      ∀ w ∈ ws, r.cellContext r.stateSize w ⊆ Γ := by
  have hall := forall₂_weights hlen hslots
  obtain ⟨depth, hdepth⟩ := Nat.exists_eq_succ_of_ne_zero r.depth_pos
  rw [hdepth, List.range_succ_eq_map, List.forall₂_cons_right_iff] at hall
  obtain ⟨w, ws, hw, hws, heq⟩ := hall
  refine ⟨w, ws, heq, ?_, hw, fun w hw => ?_⟩
  · rw [hws.length_eq, List.length_map, List.length_range, hdepth]
  · obtain ⟨height, hheight, hw⟩ := exists_of_mem_left hws hw
    obtain ⟨below, -, rfl⟩ := List.mem_map.mp hheight
    exact hw

theorem lastContext_states {last : List CellState} (hlast : r.lastContext batch last ⊆ Γ) :
    (∀ t ∈ last.map (·.state), (t, [batch, r.stateSize]) ∈ Γ) ∧
      ∀ t ∈ last.map (·.memory), (t, [batch, r.stateSize]) ∈ Γ := by
  constructor
  · refine List.forall_mem_map.mpr fun s hs => hlast (List.mem_flatMap.mpr ⟨s, hs, ?_⟩)
    exact List.mem_cons_self
  · refine List.forall_mem_map.mpr fun s hs => hlast (List.mem_flatMap.mpr ⟨s, hs, ?_⟩)
    exact .tail _ List.mem_cons_self

/-- The end of `forward`: the outputs, from the sequence of the topmost cell and the last states. -/
def outputs (r : RecurrentLayer) (sequence : Tensor) (last : List CellState) :
    Run α (List Tensor) := do
  if !r.returnState then return [sequence]
  let state ← Tensor.stack (last.map (·.state)) 0
  if !r.cell.hasMemory then return [sequence, state]
  return [sequence, state, ← Tensor.stack (last.map (·.memory)) 0]

/-- The extents of the outputs. -/
def outputExtents (r : RecurrentLayer) (batch time : Nat) : List Extents :=
  [batch, time, r.stateSize] :: if r.returnState then r.stateExtents batch else []

/-- Stacked states, if they are asked for, can be addressed. -/
def StacksStates (r : RecurrentLayer) (batch : Nat) : Prop :=
  r.returnState = true → Extents.addressable [r.depth, batch, r.stateSize] = true

variable {sequence : Tensor} {last : List CellState}

theorem outputs_gives (hsequence : (sequence, [batch, time, r.stateSize]) ∈ Γ)
    (hlast : r.lastContext batch last ⊆ Γ) (hdepth : last.length = r.depth)
    (h : r.StacksStates batch) :
    Gives Γ (r.outputs sequence last : Run α _) (Listed (r.outputExtents batch time)) := by
  obtain ⟨hstate, hmemory⟩ := lastContext_states hlast
  unfold outputs outputExtents
  cases hreturn : r.returnState with
  | false =>
    refine Gives.listed [(sequence, [batch, time, r.stateSize])] ?_
    exact List.cons_subset.mpr ⟨hsequence, List.Subset.refl _⟩
  | true =>
    have hstack : ∀ Γ' (ts : List Tensor), ts.length = r.depth →
        (∀ t ∈ ts, (t, [batch, r.stateSize]) ∈ Γ') →
        Makes Γ' (Tensor.stack ts 0 : Run α _) [r.depth, batch, r.stateSize] := by
      intro Γ' ts hlen hts
      have hne : ts ≠ [] := List.ne_nil_of_length_pos (hlen ▸ Nat.pos_of_ne_zero r.depth_pos)
      exact hlen ▸ Makes.stack hne hts (Nat.zero_le _) (hlen.symm ▸ h hreturn)
    refine Makes.bind (hstack Γ _ ((List.length_map _).trans hdepth) hstate) fun state => ?_
    unfold stateExtents
    cases r.cell.hasMemory with
    | false =>
      refine Gives.listed [(sequence, [batch, time, r.stateSize]),
        (state, [r.depth, batch, r.stateSize])] fun p hp => ?_
      simp only [List.cons_append, List.nil_append, List.mem_cons] at hp ⊢
      rcases hp with rfl | hp
      · exact .inr hsequence
      · exact hp
    | true =>
      refine Makes.bind (hstack _ _ ((List.length_map _).trans hdepth)
        fun t ht => .tail _ (hmemory t ht)) fun memory => ?_
      refine Gives.listed [(sequence, [batch, time, r.stateSize]),
        (state, [r.depth, batch, r.stateSize]),
        (memory, [r.depth, batch, r.stateSize])] fun p hp => ?_
      simp only [List.cons_append, List.nil_append, List.mem_cons] at hp ⊢
      rcases hp with rfl | rfl | rfl | hp
      · exact .inr (.inr hsequence)
      · exact .inr (.inl rfl)
      · exact .inl rfl
      · exact .inr (.inr hp)

theorem outputs_stuck (hlast : r.lastContext batch last ⊆ Γ) (hdepth : last.length = r.depth)
    (h : ¬r.StacksStates batch) : Stuck Γ (r.outputs sequence last : Run α _) := by
  obtain ⟨hstate, -⟩ := lastContext_states hlast
  have hne : last ≠ [] := List.ne_nil_of_length_pos (hdepth ▸ Nat.pos_of_ne_zero r.depth_pos)
  obtain ⟨hreturn, haddressable⟩ := not_forall.mp h
  rw [Bool.not_eq_true] at haddressable
  unfold outputs
  rw [hreturn]
  refine Stuck.bind (Stuck.stack (s := [batch, r.stateSize]) (mt List.map_eq_nil_iff.mp hne) hstate
    (Nat.zero_le _) ?_) _
  rwa [List.length_map, hdepth]

theorem forward_gives (hlen : slots.length = ((Layer.recurrent r).parameterExtents k).length)
    (hslots : ∀ p ∈ slots.zip ((Layer.recurrent r).parameterExtents k), (.weight p.1, p.2) ∈ Γ)
    (hx : (x, [batch, time, k]) ∈ Γ)
    (hcontract : DenseArray.contractsTo [batch, time, r.cell.gates * r.stateSize] k = true)
    (hstates : r.StacksStates batch) :
    Gives Γ (r.forward slots x : Run α _) (Listed (r.outputExtents batch time)) := by
  obtain ⟨w, ws, hweights, hdepth, hw, hws⟩ := exists_weights hlen hslots
  refine Ends.value hx fun y hy => ?_
  rw [hy, hweights]
  refine Gives.bind (runCells_cons hx hw hcontract fun y Γ' hkeep hy =>
    runCells_gives hy (fun w hw => List.Subset.trans (hws w hw) hkeep)
      (DenseArray.contractsTo_iff.mp hcontract).1) ?_
  rintro ⟨sequence, last⟩ _ ⟨hlast, rfl⟩
  refine Gives.forget (outputs_gives List.mem_cons_self ?_ (hlast.trans hdepth) hstates) ?_
  · exact fun p hp => .tail _ (List.mem_append_left _ hp)
  · exact List.subset_append_right _ _

/-- What the layer asks of its input. -/
def Admits (r : RecurrentLayer) (k : Nat) (s : Extents) : Prop :=
  ∃ batch time, s = [batch, time, k] ∧
    DenseArray.contractsTo [batch, time, r.cell.gates * r.stateSize] k = true ∧
    r.StacksStates batch

theorem forward_stuck {s : Extents}
    (hlen : slots.length = ((Layer.recurrent r).parameterExtents k).length)
    (hslots : ∀ p ∈ slots.zip ((Layer.recurrent r).parameterExtents k), (.weight p.1, p.2) ∈ Γ)
    (hx : (x, s) ∈ Γ) (h : ¬r.Admits k s) : Stuck Γ (r.forward slots x : Run α _) := by
  obtain ⟨w, ws, hweights, hdepth, hw, hws⟩ := exists_weights hlen hslots
  refine Ends.value hx fun y hy => ?_
  rw [hy, hweights]
  split
  · rename_i batch time f
    by_cases hfirst : f = k ∧
        DenseArray.contractsTo [batch, time, r.cell.gates * r.stateSize] k = true
    · obtain ⟨rfl, hcontract⟩ := hfirst
      refine Gives.bind (runCells_cons hx hw hcontract fun y Γ' hkeep hy =>
        runCells_gives hy (fun w hw => List.Subset.trans (hws w hw) hkeep)
          (DenseArray.contractsTo_iff.mp hcontract).1) ?_
      rintro ⟨sequence, last⟩ _ ⟨hlast, rfl⟩
      refine outputs_stuck ?_ (hlast.trans hdepth) fun hstates =>
        h ⟨batch, time, rfl, hcontract, hstates⟩
      exact fun p hp => .tail _ (List.mem_append_left _ hp)
    · exact (Cell.run_stuck hx hw hfirst).bind _ |>.bind _
  · exact Stuck.throw _

end RecurrentLayer

end NeuralNet
