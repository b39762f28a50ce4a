import NeuralNet.Proofs.DenseArray.Tables
import NeuralNet.Proofs.Layer.EitherMode
import NeuralNet.Proofs.Layer.Samples

/-!
# Recurrent layers by their recurrences

For every sample, a cell steps from a state to the next one, by what the input contributes to its
gates and what the state does. A cell on top of another one reads the states of the one below.
-/

namespace NeuralNet

open Finset (range)
open DenseArray (grid cube)

variable {α : Type} [ExactScalar α]

/-! ## Recurrences -/

/-- What a cell carries of one sample from step to step. -/
structure Cell.Carry (α : Type) where
  state : Nat → α
  memory : Nat → α

/-- The parameters of a cell by rows: the weights and biases of the input, and those of the state. -/
structure Cell.Maps (α : Type) where
  inputWeight : Nat → Nat → α
  inputBias : Nat → α
  hiddenWeight : Nat → Nat → α
  hiddenBias : Nat → α

namespace Cell

/-- Row `i` of `W x + b`. -/
def affine (width : Nat) (weight : Nat → Nat → α) (bias x : Nat → α) (i : Nat) : α :=
  ∑ k ∈ range width, weight i k * x k + bias i

/-- One step, from what the input and the state contribute to the gates. -/
def next (c : Cell) (size : Nat) (input hidden : Nat → α) (s : Carry α) : Carry α :=
  match c with
  | rnn activation => ⟨fun j => activation.function (input j + hidden j), s.memory⟩
  | lstm =>
    let enter j := Scalar.sigmoid (input j + hidden j)
    let forget j := Scalar.sigmoid (input (size + j) + hidden (size + j))
    let candidate j := Scalar.tanh (input (2 * size + j) + hidden (2 * size + j))
    let leave j := Scalar.sigmoid (input (3 * size + j) + hidden (3 * size + j))
    let memory j := forget j * s.memory j + enter j * candidate j
    ⟨fun j => leave j * Scalar.tanh (memory j), memory⟩
  | gru =>
    let reset j := Scalar.sigmoid (input j + hidden j)
    let update j := Scalar.sigmoid (input (size + j) + hidden (size + j))
    let candidate j := Scalar.tanh (input (2 * size + j) + reset j * hidden (2 * size + j))
    ⟨fun j => (1 - update j) * candidate j + update j * s.state j, s.memory⟩

/-- What is carried after some steps from zeros on, where `x t` is the input of step `t`. -/
def after (c : Cell) (width size : Nat) (p : Maps α) (x : Nat → Nat → α) : Nat → Carry α
  | 0 => ⟨fun _ => 0, fun _ => 0⟩
  | t + 1 =>
    let s := after c width size p x t
    c.next size (affine width p.inputWeight p.inputBias (x t))
      (affine size p.hiddenWeight p.hiddenBias s.state) s

end Cell

/-! ## Steps on arrays -/

/-- What is carried for a batch of samples. -/
def CellValues.ofSamples (N H : Nat) (s : Nat → Cell.Carry α) : CellValues α :=
  ⟨grid N H fun n => (s n).state, grid N H fun n => (s n).memory⟩

namespace Cell

open DenseArray

variable {N H m start stop : Nat}

/-- One of the parts of the last axis. -/
theorem part_grid (H : Nat) (f : Nat → Nat → α) (hstop : stop = start + H) (hm : stop ≤ m) :
    (grid N m f).slice start stop = .ok (grid N H fun n j => f n (start + j)) := by
  subst hstop
  have hslice := slice_grid (N := N) (f := f) (Nat.le_add_right start H) hm
  rwa [Nat.add_sub_cancel_left] at hslice

theorem evaluateGate_grid (u v : Nat → Nat → α) (hm : start + H ≤ m) :
    evaluateGate (grid N m u) (grid N m v) start H =
      .ok (grid N H fun n j => Scalar.sigmoid (u n (start + j) + v n (start + j))) := by
  unfold evaluateGate
  rw [part_grid H u rfl hm, ok_bind, part_grid H v rfl hm, ok_bind, add_grid, ok_bind, map_grid]
  rfl

theorem evaluateStep_grid (c : Cell) (u v : Nat → Nat → α) (s : Nat → Carry α) :
    c.evaluateStep H (grid N (c.gates * H) u) (grid N (c.gates * H) v) (.ofSamples N H s) =
      .ok (.ofSamples N H fun n => c.next H (u n) (v n) (s n)) := by
  have hstate : (CellValues.ofSamples N H s).state = grid N H fun n => (s n).state := rfl
  have hmemory : (CellValues.ofSamples N H s).memory = grid N H fun n => (s n).memory := rfl
  cases c with
  | rnn activation =>
    have hone : (rnn activation).gates * H = H := Nat.one_mul H
    rw [hone]
    dsimp only [evaluateStep]
    rw [add_grid, ok_bind, map_grid]
    rfl
  | lstm =>
    have hfour : lstm.gates * H = 4 * H := rfl
    rw [hfour]
    dsimp only [evaluateStep]
    rw [add_grid, ok_bind, part_grid H _ (by omega) (by omega), ok_bind,
      part_grid H _ (by omega) (by omega), ok_bind, part_grid H _ (by omega) (by omega), ok_bind,
      part_grid H _ (by omega) (by omega), ok_bind]
    simp only [map_grid, hmemory, mul_grid, add_grid, ok_bind, Nat.zero_add]
    rfl
  | gru =>
    have hthree : gru.gates * H = 3 * H := rfl
    have hblend : ∀ n z h : α, n + z * (h - n) = (1 - z) * n + z * h := by
      intro n z h
      ring
    rw [hthree]
    dsimp only [evaluateStep]
    rw [evaluateGate_grid u v (by omega), ok_bind, evaluateGate_grid u v (by omega), ok_bind,
      part_grid H u (by omega) (by omega), ok_bind, part_grid H v (by omega) (by omega), ok_bind]
    simp only [map_grid, hstate, mul_grid, add_grid, sub_grid, ok_bind, Nat.zero_add, hblend]
    rfl

/-- The parameters of a cell, row by row. -/
def Weights.maps (w : Weights) (parameter : Nat → DenseArray α) : Maps α where
  inputWeight i k := (parameter w.inputWeight).get [i, k]
  inputBias i := (parameter w.inputBias).get [i]
  hiddenWeight i k := (parameter w.hiddenWeight).get [i, k]
  hiddenBias i := (parameter w.hiddenBias).get [i]

variable {c : Cell} {T width t : Nat} {w : Weights} {parameter : Nat → DenseArray α}
  {x : Nat → Nat → Nat → α}

/-- What the inputs contribute to the gates of all steps. -/
def contributions (w : Weights) (parameter : Nat → DenseArray α) (rows N T width : Nat)
    (x : Nat → Nat → Nat → α) : DenseArray α :=
  cube N T rows fun n t =>
    affine width (w.maps parameter).inputWeight (w.maps parameter).inputBias (x n t)

theorem evaluateStepAt_grid (hw : w.Fit parameter (c.gates * H) width H) (ht : t < T)
    (hroom : contractsTo [N, c.gates * H] H = true) :
    c.evaluateStepAt H (contributions w parameter (c.gates * H) N T width x)
      (parameter w.hiddenWeight) (parameter w.hiddenBias)
      (.ofSamples N H fun n => c.after width H (w.maps parameter) (x n) t) t =
      .ok (.ofSamples N H fun n => c.after width H (w.maps parameter) (x n) (t + 1)) := by
  unfold evaluateStepAt contributions
  rw [select_cube ht, ok_bind, CellValues.ofSamples, matmul_grid hw.hiddenWeight hroom, ok_bind,
    add_grid_row hw.hiddenBias, ok_bind]
  exact evaluateStep_grid c _ _ _

theorem evaluateUnroll_grid (hw : w.Fit parameter (c.gates * H) width H)
    (hroom : contractsTo [N, c.gates * H] H = true) {steps : Nat} (hsteps : t + steps ≤ T) :
    c.evaluateUnroll H (contributions w parameter (c.gates * H) N T width x)
      (parameter w.hiddenWeight) (parameter w.hiddenBias) (List.range' t steps)
      (.ofSamples N H fun n => c.after width H (w.maps parameter) (x n) t) =
      .ok ((List.range' t steps).map fun t => grid N H fun n =>
          (c.after width H (w.maps parameter) (x n) (t + 1)).state,
        .ofSamples N H fun n => c.after width H (w.maps parameter) (x n) (t + steps)) := by
  induction steps generalizing t with
  | zero => rfl
  | succ steps ih =>
    rw [List.range'_succ, evaluateUnroll, evaluateStepAt_grid hw (by omega) hroom, ok_bind,
      ih (by omega), ok_bind, Nat.add_right_comm t 1 steps]
    rfl

/-- A run over all steps from zeros on. -/
theorem evaluateRun_cube (hw : w.Fit parameter (c.gates * H) width H) (hH : H ≠ 0) (hT : T ≠ 0)
    (hroom : contractsTo [N, T, c.gates * H] width = true) :
    c.evaluateRun H N T w parameter (cube N T width x) =
      .ok (cube N T H fun n t => (c.after width H (w.maps parameter) (x n) (t + 1)).state,
        .ofSamples N H fun n => c.after width H (w.maps parameter) (x n) T) := by
  obtain ⟨haddressable, -⟩ := contractsTo_iff.mp hroom
  have hstep : contractsTo [N, c.gates * H] H = true :=
    contractsTo_of_ne_zero (Extents.addressable_step haddressable) hH
  have hsequence : Extents.addressable ([N, H].insertIdx 1 T) = true := by
    rw [Extents.addressable_insertIdx T (by simp)]
    exact Extents.addressable_states haddressable (Nat.le_mul_of_pos_left H c.gates_pos)
  have hzeros : (⟨.zeros [N, H], .zeros [N, H]⟩ : CellValues α) =
      .ofSamples N H fun n => c.after width H (w.maps parameter) (x n) 0 := by
    rw [zeros_grid]
    rfl
  have hstates := evaluateUnroll_grid (T := T) (x := x) (t := 0) hw hstep (Nat.zero_add T).le
  rw [← hzeros, ← List.range_eq_range', Nat.zero_add] at hstates
  unfold evaluateRun
  rw [matmul_cube hw.inputWeight hroom, ok_bind, add_cube_row hw.inputBias, ok_bind]
  change (c.evaluateUnroll H (contributions w parameter (c.gates * H) N T width x) _ _ _ _ >>= _) = _
  rw [hstates, ok_bind]
  dsimp only
  have hne : ((List.range T).map fun t => grid N H fun n =>
      (c.after width H (w.maps parameter) (x n) (t + 1)).state).isEmpty = false := by
    simpa using hT
  rw [hne, if_neg Bool.false_ne_true, stack_grids_second
    (f := fun n t => (c.after width H (w.maps parameter) (x n) (t + 1)).state) hT hsequence]
  rfl

end Cell

/-! ## Cells on top of each other -/

namespace RecurrentLayer

open Cell (Carry Maps Weights)

/-- How many features the cell at a height reads. -/
def widthAt (r : RecurrentLayer) (width height : Nat) : Nat :=
  if height = 0 then width else r.stateSize

/-- The sequence that the cell at a height reads: that of the input, or the states of the cell below
after every step. -/
def reads (r : RecurrentLayer) (width : Nat) (p : Nat → Maps α) (x : Nat → Nat → α) :
    Nat → Nat → Nat → α
  | 0 => x
  | height + 1 => fun t => (r.cell.after (r.widthAt width height) r.stateSize (p height)
      (reads r width p x height) (t + 1)).state

/-- What the cell at a height carries after some steps. -/
def carried (r : RecurrentLayer) (width : Nat) (p : Nat → Maps α) (x : Nat → Nat → α)
    (height t : Nat) : Carry α :=
  r.cell.after (r.widthAt width height) r.stateSize (p height) (r.reads width p x height) t

/-- The outputs: the states of the topmost cell after every step, and if they are asked for what
every cell carries at the end. -/
def recurrence (r : RecurrentLayer) (batch time width : Nat) (p : Nat → Maps α)
    (x : Nat → Nat → Nat → α) : List (DenseArray α) :=
  cube batch time r.stateSize
      (fun n t => (r.carried width p (x n) (r.depth - 1) (t + 1)).state) ::
    if r.returnState then
      cube r.depth batch r.stateSize (fun height n => (r.carried width p (x n) height time).state) ::
        if r.cell.hasMemory then
          [cube r.depth batch r.stateSize fun height n =>
            (r.carried width p (x n) height time).memory]
        else []
    else []

variable {r : RecurrentLayer} {N T width height cells : Nat} {p : Nat → Maps α}
  {x : Nat → Nat → Nat → α} {parameter : Nat → DenseArray α} {ws : List Weights}

theorem evaluateCells_cube (hT : T ≠ 0) (hwidth : width ≠ 0)
    (hroom : Extents.addressable [N, T, r.cell.gates * r.stateSize] = true)
    (hws : List.Forall₂ (fun w m => r.CellFit parameter (r.widthAt width m) w ∧
      w.maps parameter = p m) ws (List.range' height cells)) :
    r.evaluateCells N T parameter ws
        (cube N T (r.widthAt width height) fun n => r.reads width p (x n) height) =
      .ok (cube N T (r.widthAt width (height + cells)) fun n =>
          r.reads width p (x n) (height + cells),
        (List.range' height cells).map fun m =>
          .ofSamples N r.stateSize fun n => r.carried width p (x n) m T) := by
  induction cells generalizing height ws with
  | zero =>
    cases hws
    rfl
  | succ cells ih =>
    rw [List.range'_succ] at hws ⊢
    obtain ⟨w, ws, ⟨hfit, hmaps⟩, hrest, rfl⟩ := List.forall₂_cons_right_iff.mp hws
    have hne : r.widthAt width height ≠ 0 := by
      unfold widthAt
      split
      · exact hwidth
      · exact r.stateSize_pos
    have hrun := Cell.evaluateRun_cube (x := fun n => r.reads width p (x n) height) hfit
      r.stateSize_pos hT (DenseArray.contractsTo_of_ne_zero hroom hne)
    rw [hmaps] at hrun
    have hcells := ih hrest
    rw [evaluateCells, hrun, ok_bind]
    dsimp only
    change r.evaluateCells N T parameter ws (cube N T (r.widthAt width (height + 1)) fun n =>
      r.reads width p (x n) (height + 1)) >>= _ = _
    rw [hcells, ok_bind, Nat.add_right_comm height 1 cells]
    rfl

theorem evaluateOutputs_cube {sequence : DenseArray α} {s : Nat → Nat → Carry α}
    (hroom : r.StacksStates N) :
    r.evaluateOutputs sequence ((List.range r.depth).map fun m => .ofSamples N r.stateSize (s m)) =
      .ok (sequence :: if r.returnState then
        cube r.depth N r.stateSize (fun m n => (s m n).state) ::
          if r.cell.hasMemory then [cube r.depth N r.stateSize fun m n => (s m n).memory] else []
        else []) := by
  unfold evaluateOutputs
  cases hreturn : r.returnState with
  | false => rfl
  | true =>
    have hstate := DenseArray.stack_grids (f := fun m n => (s m n).state) r.depth_pos (hroom hreturn)
    have hmemory := DenseArray.stack_grids (f := fun m n => (s m n).memory) r.depth_pos
      (hroom hreturn)
    simp only [List.map_map]
    change (DenseArray.stack ((List.range r.depth).map fun m => grid N r.stateSize fun n =>
      (s m n).state) 0 >>= _) = _
    rw [hstate, ok_bind]
    cases r.cell.hasMemory with
    | false => rfl
    | true =>
      change (DenseArray.stack ((List.range r.depth).map fun m => grid N r.stateSize fun n =>
        (s m n).memory) 0 >>= _) = _
      rw [hmemory, ok_bind]
      rfl

/-! ## The layer -/

/-- The parameters of the cell at a height, in the order in which they are declared. -/
def mapsAt (slots : List Nat) (parameter : Nat → DenseArray α) (height : Nat) : Maps α :=
  let own (i : Nat) := Layer.slotAt slots (4 * height + i)
  Weights.maps ⟨own 0, own 1, own 2, own 3⟩ parameter

variable {slots : List Nat}

theorem maps_weights (parameter : Nat → DenseArray α) (h : slots.length = 4 * cells) :
    (weights slots).map (·.maps parameter) = (List.range cells).map (mapsAt slots parameter) := by
  induction cells generalizing slots with
  | zero =>
    obtain rfl := List.length_eq_zero_iff.mp h
    rfl
  | succ cells ih =>
    match slots, h with
    | a :: b :: c :: d :: rest, h =>
      rw [weights, List.map_cons, ih (by simpa [Nat.mul_succ] using h), List.range_succ_eq_map,
        List.map_cons, List.map_map]
      rfl

/-- The parameters fit, cell by cell. -/
theorem forall₂_fit (hlen : slots.length = (Layer.recurrent r).declared.length)
    (hfit : (Layer.recurrent r).Fitted width slots parameter) :
    List.Forall₂ (fun w m => r.CellFit parameter (r.widthAt width m) w ∧
      w.maps parameter = mapsAt slots parameter m) (weights slots) (List.range r.depth) := by
  have hsize : slots.length = 4 * r.depth := by
    simpa [Layer.declared, Layer.cellParameters, Nat.mul_comm] using hlen
  have hcells : List.Forall₂ (fun w m => r.cellContext (if m = 0 then width else r.stateSize) w ⊆ _)
      (weights slots) (List.range r.depth) :=
    forall₂_weights (hlen.trans (Layer.length_parameterExtents _ width).symm)
      (Layer.fitted_mem hfit)
  apply forall₂_and.mpr
  constructor
  · exact hcells.imp fun w m hw => Layer.cellFit_of_context hw
  · have hmaps := maps_weights parameter hsize
    rw [← List.forall₂_eq_eq_eq, List.forall₂_map_left_iff, List.forall₂_map_right_iff] at hmaps
    exact hmaps

theorem evaluate_eq_recurrence {input : DenseArray α} (hinput : input.extents = [N, T, width])
    (hT : T ≠ 0) (hwidth : width ≠ 0)
    (hlen : slots.length = (Layer.recurrent r).declared.length)
    (hfit : (Layer.recurrent r).Fitted width slots parameter)
    (hroom : Extents.addressable [N, T, r.cell.gates * r.stateSize] = true)
    (hstates : r.StacksStates N) :
    r.evaluate slots parameter input =
      .ok (r.recurrence N T width (mapsAt slots parameter) fun n t k => input.get [n, t, k]) := by
  have hcube : input = cube N T width fun n t k => input.get [n, t, k] :=
    DenseArray.eq_cube hinput fun _ _ _ _ _ _ => rfl
  have hweights := forall₂_fit hlen hfit
  rw [List.range_eq_range'] at hweights
  have hcells := evaluateCells_cube (x := fun n t k => input.get [n, t, k]) hT hwidth hroom hweights
  rw [Nat.zero_add, ← List.range_eq_range'] at hcells
  unfold evaluate
  rw [hinput]
  dsimp only
  have hlowest : (cube N T (r.widthAt width 0) fun n => r.reads width (mapsAt slots parameter)
      (fun t k => input.get [n, t, k]) 0) = input := hcube.symm
  rw [hlowest] at hcells
  obtain ⟨below, hdepth⟩ := Nat.exists_eq_succ_of_ne_zero r.depth_pos
  rw [hcells, ok_bind]
  dsimp only
  rw [evaluateOutputs_cube hstates, recurrence, hdepth]
  rfl

omit [ExactScalar α] in
/-- Parameters of the extents that the layer needs for its input. -/
theorem fitted_of_parameterShape {w : Workspace α} (h : List.Forall₂ (fun p i => ∃ s,
      (Layer.recurrent r).parameterShape p.1 [Shape.ofExtents [N, T, width]] = .ok s ∧
        w.extents? (.weight i) = some s) (Layer.recurrent r).declared slots) :
    (∀ i ∈ slots, w.holds (.weight i) = true) ∧
      slots.length = (Layer.recurrent r).declared.length ∧
      (Layer.recurrent r).Fitted width slots fun i => w.value (.weight i) := by
  have hinput : (Layer.recurrent r).inputWidth [Shape.ofExtents [N, T, width]] = .ok width :=
    (Layer.inputWidth_leading : _ = Except.ok width ↔ _).mpr rfl
  have hextents := forall₂_of_common h (Layer.forall₂_parameterShape hinput)
    (T := fun i s => w.extents? (.weight i) = some s) ?_
  · refine ⟨?_, h.length_eq.symm, ?_⟩
    · intro i hi
      obtain ⟨s, -, hs⟩ := exists_of_mem_left hextents hi
      exact (Workspace.extents?_eq_some.mp hs).1
    · intro p hp
      have hs := (List.forall₂_iff_zip.mp hextents).2 hp
      exact Workspace.extents_value hs
  · rintro p i s ⟨s', hshape', hs'⟩ hshape
    cases hshape'.symm.trans hshape
    exact hs'

/-- A recurrent layer succeeds on every input of batches of sequences, in training as in evaluation,
and computes its recurrence for every sample: as long as what it makes can be addressed. -/
theorem forward_recurs {w : Workspace α} {t : Tensor} (hx : w.extents? t = some [N, T, width])
    (hsize : 0 < N * T * width)
    (hparameters : List.Forall₂ (fun p i => ∃ s,
      (Layer.recurrent r).parameterShape p.1 [Shape.ofExtents [N, T, width]] = .ok s ∧
        w.extents? (.weight i) = some s) (Layer.recurrent r).declared slots)
    (hroom : Extents.addressable [N, T, r.cell.gates * r.stateSize] = true)
    (hstates : r.StacksStates N) :
    ∃ ts w', (Layer.recurrent r).forward slots [t] w = (.ok ts, w') ∧
      ts.map w'.value = r.recurrence N T width (mapsAt slots fun i => w.value (.weight i))
        fun n s k => (w.value t).get [n, s, k] := by
  have hT : T ≠ 0 := by
    rintro rfl
    simp at hsize
  have hwidth : width ≠ 0 := by
    rintro rfl
    simp at hsize
  obtain ⟨hheld, hlen, hfit⟩ := fitted_of_parameterShape hparameters
  obtain ⟨hinput, hextents⟩ := Workspace.extents?_eq_some.mp hx
  let quiet : Workspace α := { w with training := false }
  let Γ : Environment α := (t, w.value t) :: slots.map fun i => (.weight i, w.value (.weight i))
  have hholds : quiet.Holds Γ := by
    refine ⟨rfl, List.forall_mem_cons.mpr ⟨?_, List.forall_mem_map.mpr ?_⟩⟩
    · exact Workspace.array?_eq_some.mpr ⟨hinput, rfl⟩
    · intro i hi
      exact Workspace.array?_eq_some.mpr ⟨hheld i hi, rfl⟩
  have hslots : ∀ i ∈ slots, (.weight i, w.value (.weight i)) ∈ Γ :=
    fun i hi => List.mem_cons_of_mem _ (List.mem_map.mpr ⟨i, hi, rfl⟩)
  have hcomputes := forward_computes (r := r) hslots List.mem_cons_self quiet hholds
  rw [evaluate_eq_recurrence hextents hT hwidth hlen hfit hroom hstates] at hcomputes
  obtain ⟨ts, Δ, hok, -, -⟩ := id hcomputes
  have hvalues := Block.Follows.values hcomputes
  rw [hok] at hvalues
  have hrun := r.forward_indifferent slots t quiet w.training
  refine ⟨ts, _, hrun.trans (Prod.ext hok rfl), ?_⟩
  exact Except.ok.inj hvalues

section Example

/-- Two cells on top of each other, which show what they carry at the end. -/
def tower : RecurrentLayer := ⟨.lstm, 1, 2, true, by decide, by decide⟩

/-- Parameters of ones, and a sequence of two steps, in training. -/
def towerWorkspace : Workspace ℚ :=
  let ones (s : Extents) : Slot ℚ := ⟨"", .weight, true, none, some ⟨.float32, .ones s, none, true⟩⟩
  { (Workspace.seeded 0 : Workspace ℚ) with
    slots := #[ones [4, 1], ones [4], ones [4, 1], ones [4],
      ones [4, 1], ones [4], ones [4, 1], ones [4]]
    nodes := #[⟨⟨[1, 2, 1], #[1, 2], rfl⟩, none, false, none⟩]
    training := true }

theorem forward_recurs_tower :
    ∃ ts w', (Layer.recurrent tower).forward (List.range 8) [.node 0] towerWorkspace =
        (.ok ts, w') ∧
      ts.map w'.value = tower.recurrence 1 2 1
        (mapsAt (List.range 8) fun i => towerWorkspace.value (.weight i))
        fun n s k => (towerWorkspace.value (.node 0)).get [n, s, k] := by
  refine forward_recurs rfl (by decide) ?_ (by decide) ?_
  · exact .cons ⟨_, rfl, rfl⟩ (.cons ⟨_, rfl, rfl⟩ (.cons ⟨_, rfl, rfl⟩ (.cons ⟨_, rfl, rfl⟩
      (.cons ⟨_, rfl, rfl⟩ (.cons ⟨_, rfl, rfl⟩ (.cons ⟨_, rfl, rfl⟩ (.cons ⟨_, rfl, rfl⟩
        .nil)))))))
  · intro _
    decide

end Example

end RecurrentLayer

end NeuralNet
