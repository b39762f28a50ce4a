import NeuralNet.Proofs.Layer.Recurrent
import NeuralNet.Proofs.Layer.Forward
import NeuralNet.Proofs.Tape.Computes

/-!
# What a layer computes in evaluation

In evaluation the outputs of a layer are a function of its parameters and its inputs: no random
numbers are drawn and no statistics are moved.

* `Layer.evaluate`: this function, on arrays;
* `Layer.forward_computes`: a layer that has its parameters computes it.
-/

namespace NeuralNet

open Run (Computes One Many)

variable {α : Type} [Scalar α]

def Activation.function : Activation → α → α
  | .relu => Scalar.relu
  | .sigmoid => Scalar.sigmoid
  | .tanh => Scalar.tanh

/-- The arrays that a cell carries from one time step to the next. -/
structure CellValues (α : Type) where
  state : DenseArray α
  memory : DenseArray α

/-! ## Evaluation -/

namespace Cell

def evaluateGate (input hidden : DenseArray α) (start size : Nat) :
    Except Error (DenseArray α) := do
  let a ← input.slice start (start + size)
  let b ← hidden.slice start (start + size)
  return (← a.add b).map Scalar.sigmoid

/-- One time step. -/
def evaluateStep (c : Cell) (size : Nat) (input hidden : DenseArray α) (s : CellValues α) :
    Except Error (CellValues α) :=
  match c with
  | rnn activation => do
    return ⟨(← input.add hidden).map activation.function, s.memory⟩
  | lstm => do
    let gates ← input.add hidden
    let enter ← gates.slice 0 size
    let forget ← gates.slice size (2 * size)
    let candidate ← gates.slice (2 * size) (3 * size)
    let leave ← gates.slice (3 * size) (4 * size)
    let kept ← (forget.map Scalar.sigmoid).mul s.memory
    let new ← (enter.map Scalar.sigmoid).mul (candidate.map Scalar.tanh)
    let memory ← kept.add new
    return ⟨← (leave.map Scalar.sigmoid).mul (memory.map Scalar.tanh), memory⟩
  | gru => do
    let reset ← evaluateGate input hidden 0 size
    let update ← evaluateGate input hidden size size
    let a ← input.slice (2 * size) (3 * size)
    let b ← reset.mul (← hidden.slice (2 * size) (3 * size))
    let sum ← a.add b
    let candidate := sum.map Scalar.tanh
    return ⟨← candidate.add (← update.mul (← s.state.sub candidate)), s.memory⟩

/-- Time step `t`. -/
def evaluateStepAt (c : Cell) (size : Nat) (inputs hiddenWeight hiddenBias : DenseArray α)
    (s : CellValues α) (t : Nat) : Except Error (CellValues α) := do
  let input ← inputs.select 1 t
  let hidden ← (← s.state.matmul hiddenWeight).add hiddenBias
  c.evaluateStep size input hidden s

/-- The states after every step, and the last one. -/
def evaluateUnroll (c : Cell) (size : Nat) (inputs hiddenWeight hiddenBias : DenseArray α) :
    List Nat → CellValues α → Except Error (List (DenseArray α) × CellValues α)
  | [], s => .ok ([], s)
  | t :: rest, s => do
    let s ← c.evaluateStepAt size inputs hiddenWeight hiddenBias s t
    let (states, last) ← evaluateUnroll c size inputs hiddenWeight hiddenBias rest s
    return (s.state :: states, last)

/-- The sequences of states from zero states on, and the last ones. -/
def evaluateRun (c : Cell) (size batch time : Nat) (w : Weights) (parameter : Nat → DenseArray α)
    (x : DenseArray α) : Except Error (DenseArray α × CellValues α) := do
  let inputs ← (← x.matmul (parameter w.inputWeight)).add (parameter w.inputBias)
  let (states, last) ← c.evaluateUnroll size inputs (parameter w.hiddenWeight)
    (parameter w.hiddenBias) (List.range time) ⟨.zeros [batch, size], .zeros [batch, size]⟩
  let sequence ← if states.isEmpty then .ok (.zeros [batch, 0, size]) else DenseArray.stack states 1
  return (sequence, last)

end Cell

namespace RecurrentLayer

def evaluateCells (r : RecurrentLayer) (batch time : Nat) (parameter : Nat → DenseArray α) :
    List Cell.Weights → DenseArray α → Except Error (DenseArray α × List (CellValues α))
  | [], x => .ok (x, [])
  | w :: rest, x => do
    let (x, last) ← r.cell.evaluateRun r.stateSize batch time w parameter x
    let (x, others) ← evaluateCells r batch time parameter rest x
    return (x, last :: others)

def evaluateOutputs (r : RecurrentLayer) (sequence : DenseArray α) (last : List (CellValues α)) :
    Except Error (List (DenseArray α)) := do
  if !r.returnState then return [sequence]
  let state ← DenseArray.stack (last.map (·.state)) 0
  if !r.cell.hasMemory then return [sequence, state]
  return [sequence, state, ← DenseArray.stack (last.map (·.memory)) 0]

def evaluate (r : RecurrentLayer) (slots : List Nat) (parameter : Nat → DenseArray α)
    (x : DenseArray α) : Except Error (List (DenseArray α)) :=
  match x.extents with
  | [batch, time, _] => do
    let (sequence, last) ← r.evaluateCells batch time parameter (weights slots) x
    r.evaluateOutputs sequence last
  | s => .error (.shapeMismatch "recurrent input" (.words "(batch, time, features)") (.extents s))

end RecurrentLayer

namespace Layer

/-- The outputs for one input. -/
def evaluateOn (l : Layer) (slots : List Nat) (parameter : Nat → DenseArray α) (x : DenseArray α) :
    Except Error (List (DenseArray α)) :=
  let own (i : Nat) := parameter (slotAt slots i)
  match l with
  | linear _ bias => do
    let y ← x.matmul (own 0)
    if bias then return [← y.add (own 1)] else return [y]
  | conv c => do
    return [← x.convolve (own 0) (if c.bias then some (own 1) else none) c.stride c.padding]
  | batchNorm axis epsilon _ => do
    return [← x.normalize (own 0) (own 1) (own 2) (own 3) axis epsilon]
  | dropout _ => .ok [x]
  | flatten =>
    match x.extents with
    | [] => .error (.invalidArgument (.rankZero "flatten" "input"))
    | batch :: rest => do return [← x.reshape [batch, Extents.size rest]]
  | activation a => .ok [x.map a.function]
  | embedding _ _ | wordEmbedding _ _ => do return [← x.lookUp (own 0)]
  | recurrent r => r.evaluate slots parameter x

/-- The outputs of a layer, whose parameters are told by their slots. -/
def evaluate (l : Layer) (slots : List Nat) (parameter : Nat → DenseArray α) :
    List (DenseArray α) → Except Error (List (DenseArray α))
  | [x] => l.evaluateOn slots parameter x
  | inputs => .error (.invalidArgument (.inputCount l.name inputs.length))

end Layer

/-! ## Computing the same on handles -/

variable {Γ : Environment α}

omit [Scalar α] in
theorem Activation.apply_computes [Scalar α] (a : Activation) {t : Tensor} {x : DenseArray α}
    (ht : (t, x) ∈ Γ) : Computes Γ One (a.apply t : Run α Tensor) (.ok (x.map a.function)) := by
  cases a with
  | relu => exact .relu ht
  | sigmoid => exact .sigmoid ht
  | tanh => exact .tanh ht

/-- A state and its arrays. -/
def CellState.Carries (s : CellState) (v : CellValues α) (Δ : Environment α) : Prop :=
  (s.state, v.state) ∈ Δ ∧ (s.memory, v.memory) ∈ Δ

omit [Scalar α] in
theorem CellState.Carries.subset {s : CellState} {v : CellValues α} {Δ : Environment α}
    (h : s.Carries v Γ) (hsub : Γ ⊆ Δ) : s.Carries v Δ := ⟨hsub h.1, hsub h.2⟩

namespace Cell

variable {c : Cell} {size : Nat} {input hidden : Tensor} {x y : DenseArray α} {s : CellState}
  {v : CellValues α}

theorem gate_computes (hinput : (input, x) ∈ Γ) (hhidden : (hidden, y) ∈ Γ) (start size : Nat) :
    Computes Γ One (gate input hidden start size : Run α Tensor) (evaluateGate x y start size) := by
  refine Computes.one (.rearrange hinput _) fun a _ => ?_
  refine Computes.one (.rearrange (.tail _ hhidden) _) fun b _ => ?_
  refine Computes.one (.add (.tail _ List.mem_cons_self) List.mem_cons_self) fun sum _ => ?_
  exact .sigmoid List.mem_cons_self

theorem step_computes (hinput : (input, x) ∈ Γ) (hhidden : (hidden, y) ∈ Γ)
    (hs : s.Carries v Γ) :
    Computes Γ CellState.Carries (c.step size input hidden s) (c.evaluateStep size x y v) := by
  obtain ⟨hstate, hmemory⟩ := hs
  cases c with
  | rnn activation =>
    refine Computes.one (.add hinput hhidden) fun sum _ => ?_
    refine Computes.known (activation.apply_computes List.mem_cons_self) fun state => ?_
    exact .pure ⟨List.mem_cons_self, .tail _ (.tail _ hmemory)⟩
  | lstm =>
    refine Computes.one (.add hinput hhidden) fun gates _ => ?_
    refine Computes.one (.rearrange (by simp) _) fun a _ => ?_
    refine Computes.known (.sigmoid List.mem_cons_self) fun enter => ?_
    refine Computes.one (.rearrange (by simp) _) fun b _ => ?_
    refine Computes.known (.sigmoid List.mem_cons_self) fun forget => ?_
    refine Computes.one (.rearrange (by simp) _) fun c _ => ?_
    refine Computes.known (.tanh List.mem_cons_self) fun candidate => ?_
    refine Computes.one (.rearrange (by simp) _) fun d _ => ?_
    refine Computes.known (.sigmoid List.mem_cons_self) fun leave => ?_
    refine Computes.one (.mul (by simp) (by simp [hmemory])) fun kept _ => ?_
    refine Computes.one (.mul (by simp) (by simp)) fun new _ => ?_
    refine Computes.one (.add (by simp) List.mem_cons_self) fun memory _ => ?_
    refine Computes.known (.tanh List.mem_cons_self) fun squashed => ?_
    refine Computes.one (.mul (by simp) List.mem_cons_self) fun state _ => ?_
    exact .pure ⟨List.mem_cons_self, by simp⟩
  | gru =>
    refine Computes.one (gate_computes hinput hhidden 0 size) fun reset _ => ?_
    refine Computes.one (gate_computes (.tail _ hinput) (.tail _ hhidden) size size)
      fun update _ => ?_
    refine Computes.one (.rearrange (by simp [hinput]) _) fun a _ => ?_
    refine Computes.one (.rearrange (by simp [hhidden]) _) fun b _ => ?_
    refine Computes.one (.mul (by simp) List.mem_cons_self) fun b _ => ?_
    refine Computes.one (.add (by simp) List.mem_cons_self) fun sum _ => ?_
    refine Computes.known (.tanh List.mem_cons_self) fun candidate => ?_
    refine Computes.one (.sub (by simp [hstate]) List.mem_cons_self) fun change _ => ?_
    refine Computes.one (.mul (by simp) List.mem_cons_self) fun kept _ => ?_
    refine Computes.one (.add (by simp) List.mem_cons_self) fun state _ => ?_
    exact .pure ⟨List.mem_cons_self, by simp [hmemory]⟩

theorem stepAt_computes {inputs hiddenWeight hiddenBias : Tensor} {a b d : DenseArray α}
    (hinputs : (inputs, a) ∈ Γ) (hweight : (hiddenWeight, b) ∈ Γ) (hbias : (hiddenBias, d) ∈ Γ)
    (hs : s.Carries v Γ) (t : Nat) :
    Computes Γ CellState.Carries (c.stepAt size inputs hiddenWeight hiddenBias s t)
      (c.evaluateStepAt size a b d v t) := by
  refine Computes.one (.rearrange hinputs _) fun input _ => ?_
  refine Computes.one (.matmul (.tail _ hs.1) (.tail _ hweight)) fun product _ => ?_
  refine Computes.one (.add List.mem_cons_self (by simp [hbias])) fun hidden _ => ?_
  exact step_computes (by simp) List.mem_cons_self (hs.subset fun p hp => by simp [hp])

/-- States and their arrays, and those of the last one. -/
def Unrolled (p : List Tensor × CellState) (q : List (DenseArray α) × CellValues α)
    (Δ : Environment α) : Prop := Many p.1 q.1 Δ ∧ p.2.Carries q.2 Δ

theorem unroll_computes {inputs hiddenWeight hiddenBias : Tensor} {a b d : DenseArray α}
    (hinputs : (inputs, a) ∈ Γ) (hweight : (hiddenWeight, b) ∈ Γ) (hbias : (hiddenBias, d) ∈ Γ)
    (hs : s.Carries v Γ) (times : List Nat) :
    Computes Γ Unrolled (c.unroll size inputs hiddenWeight hiddenBias times s)
      (c.evaluateUnroll size a b d times v) := by
  -- the environment grows with every step
  induction times generalizing s v Γ with
  | nil => exact .pure ⟨.nil, hs⟩
  | cons t times ih =>
    refine Computes.bind (stepAt_computes hinputs hweight hbias hs t) fun next u Δ _ hnext => ?_
    have hkeep : Γ ⊆ Δ ++ Γ := List.subset_append_right _ _
    have hnext := hnext.subset (List.subset_append_left Δ Γ)
    refine Computes.bind (ih (hkeep hinputs) (hkeep hweight) (hkeep hbias) hnext) ?_
    rintro ⟨states, last⟩ ⟨arrays, lastValues⟩ Δ' - ⟨hstates, hlast⟩
    have hleft : Δ' ⊆ Δ' ++ (Δ ++ Γ) := List.subset_append_left _ _
    exact .pure ⟨.cons (List.mem_append_right _ hnext.1) (hstates.subset hleft),
      hlast.subset hleft⟩

/-- The parameters of a cell are known. -/
def Weights.Known (w : Weights) (parameter : Nat → DenseArray α) (Γ : Environment α) : Prop :=
  ∀ i ∈ [w.inputWeight, w.inputBias, w.hiddenWeight, w.hiddenBias],
    (.weight i, parameter i) ∈ Γ

/-- A sequence, and the last state. -/
def Ran (p : Tensor × CellState) (q : DenseArray α × CellValues α) (Δ : Environment α) : Prop :=
  (p.1, q.1) ∈ Δ ∧ p.2.Carries q.2 Δ

theorem run_computes {w : Weights} {parameter : Nat → DenseArray α} {t : Tensor}
    (ht : (t, x) ∈ Γ) (hw : w.Known parameter Γ) (batch time : Nat) :
    Computes Γ Ran (c.run size batch time w t)
      (c.evaluateRun size batch time w parameter x) := by
  obtain ⟨hweight, hbias, hhidden, hhiddenBias⟩ :
      (.weight w.inputWeight, parameter w.inputWeight) ∈ Γ ∧
        (.weight w.inputBias, parameter w.inputBias) ∈ Γ ∧
        (.weight w.hiddenWeight, parameter w.hiddenWeight) ∈ Γ ∧
        (.weight w.hiddenBias, parameter w.hiddenBias) ∈ Γ := by
    simpa [Weights.Known] using hw
  refine Computes.weight hweight (Computes.one (.matmul ht hweight) fun product _ => ?_)
  refine Computes.weight (.tail _ hbias) (Computes.one (.add List.mem_cons_self (.tail _ hbias))
    fun inputs a => ?_)
  refine Computes.weight (a := parameter w.hiddenWeight) (by simp [hhidden]) ?_
  refine Computes.weight (a := parameter w.hiddenBias) (by simp [hhiddenBias]) ?_
  refine Computes.known (.leaf (.zeros [batch, size]) false) fun state => ?_
  refine Computes.known (.leaf (.zeros [batch, size]) false) fun memory => ?_
  refine Computes.bind (unroll_computes (s := ⟨state, memory⟩)
    (v := ⟨.zeros [batch, size], .zeros [batch, size]⟩) (a := a) (b := parameter w.hiddenWeight)
    (d := parameter w.hiddenBias) (by simp) (by simp [hhidden]) (by simp [hhiddenBias])
    ⟨by simp, List.mem_cons_self⟩ _) ?_
  rintro ⟨states, last⟩ ⟨arrays, lastValues⟩ Δ - ⟨hstates, hlast⟩
  dsimp only at hstates hlast ⊢
  cases hstates with
  | nil =>
    refine Computes.known (.leaf _ false) fun sequence => ?_
    exact .pure ⟨List.mem_cons_self, hlast.subset fun p hp => by simp [hp]⟩
  | cons hfirst hrest =>
    have hstates : Many _ _ Δ := .cons hfirst hrest
    refine Computes.one (.stack (hstates.subset (List.subset_append_left _ _)) 1)
      fun sequence _ => ?_
    exact .pure ⟨List.mem_cons_self, hlast.subset fun p hp => by simp [hp]⟩

end Cell

namespace RecurrentLayer

variable {r : RecurrentLayer} {t : Tensor} {x : DenseArray α} {parameter : Nat → DenseArray α}
  {slots : List Nat} {ws : List Cell.Weights}

/-- The sequence of the topmost cell, and the last states of all cells. -/
def Ran (p : Tensor × List CellState) (q : DenseArray α × List (CellValues α))
    (Δ : Environment α) : Prop :=
  (p.1, q.1) ∈ Δ ∧ List.Forall₂ (fun s v => s.Carries v Δ) p.2 q.2

theorem runCells_computes (ht : (t, x) ∈ Γ) (hws : ∀ w ∈ ws, w.Known parameter Γ)
    (batch time : Nat) :
    Computes Γ Ran (r.runCells batch time ws t) (r.evaluateCells batch time parameter ws x) := by
  induction ws generalizing t x Γ with
  | nil => exact .pure ⟨ht, .nil⟩
  | cons w ws ih =>
    obtain ⟨hw, hws⟩ := List.forall_mem_cons.mp hws
    refine Computes.bind (Cell.run_computes ht hw batch time) ?_
    rintro ⟨u, last⟩ ⟨y, lastValues⟩ Δ - ⟨hu, hlast⟩
    refine Computes.bind (ih (List.mem_append_left Γ hu) fun w hw i hi =>
      List.mem_append_right Δ (hws w hw i hi)) ?_
    rintro ⟨u', others⟩ ⟨y', otherValues⟩ Δ' - ⟨hu', hothers⟩
    refine .pure ⟨List.mem_append_left _ hu', .cons ?_ (hothers.imp fun s v hs => ?_)⟩
    · exact hlast.subset fun p hp => by simp [hp]
    · exact hs.subset (List.subset_append_left _ _)

theorem outputs_computes {sequence : Tensor} {last : List CellState} {y : DenseArray α}
    {lastValues : List (CellValues α)} (hsequence : (sequence, y) ∈ Γ)
    (hlast : List.Forall₂ (fun s v => s.Carries v Γ) last lastValues) :
    Computes Γ Many (r.outputs sequence last : Run α _) (r.evaluateOutputs y lastValues) := by
  have hstate : Many (last.map (·.state)) (lastValues.map (·.state)) Γ :=
    List.forall₂_map_left_iff.mpr (List.forall₂_map_right_iff.mpr (hlast.imp fun s v h => h.1))
  have hmemory : Many (last.map (·.memory)) (lastValues.map (·.memory)) Γ :=
    List.forall₂_map_left_iff.mpr (List.forall₂_map_right_iff.mpr (hlast.imp fun s v h => h.2))
  unfold outputs evaluateOutputs
  cases r.returnState with
  | false => exact .single hsequence
  | true =>
    refine Computes.one (.stack hstate 0) fun state a => ?_
    cases r.cell.hasMemory with
    | false => exact .pure (.cons (.tail _ hsequence) (.cons List.mem_cons_self .nil))
    | true =>
      refine Computes.one (.stack (hmemory.subset (List.subset_cons_self _ _)) 0) fun memory b => ?_
      exact .pure (.cons (by simp [hsequence]) (.cons (by simp) (.cons List.mem_cons_self .nil)))

omit [Scalar α] in
theorem known_weights (hslots : ∀ i ∈ slots, (.weight i, parameter i) ∈ Γ) :
    ∀ w ∈ weights slots, w.Known parameter Γ := by
  induction slots using weights.induct with
  | case1 a b c d rest ih =>
    refine List.forall_mem_cons.mpr ⟨fun i hi => hslots i ?_, ih fun i hi => hslots i ?_⟩
    · simp only [List.mem_cons, List.not_mem_nil, or_false] at hi
      rcases hi with rfl | rfl | rfl | rfl <;> simp
    · simp [hi]
  | case2 slots h =>
    rw [weights]
    · simp
    · exact h

theorem forward_computes (hslots : ∀ i ∈ slots, (.weight i, parameter i) ∈ Γ)
    (ht : (t, x) ∈ Γ) :
    Computes Γ Many (r.forward slots t : Run α _) (r.evaluate slots parameter x) := by
  refine Computes.value ht ?_
  unfold evaluate
  match x.extents with
  | [batch, time, _] =>
    refine Computes.bind (runCells_computes ht (known_weights hslots) _ _) ?_
    rintro ⟨sequence, last⟩ ⟨y, lastValues⟩ Δ - ⟨hsequence, hlast⟩
    have hleft : Δ ⊆ Δ ++ Γ := List.subset_append_left _ _
    exact outputs_computes (hleft hsequence) (hlast.imp fun s v hs => hs.subset hleft)
  | [] | [_] | [_, _] | _ :: _ :: _ :: _ :: _ => exact .throw _

end RecurrentLayer

namespace Layer

variable {l : Layer} {slots : List Nat} {parameter : Nat → DenseArray α} {t : Tensor}
  {x : DenseArray α}

/-- With one input. -/
theorem forwardOn_computes (hlen : slots.length = l.declared.length)
    (hslots : ∀ i ∈ slots, (.weight i, parameter i) ∈ Γ) (ht : (t, x) ∈ Γ) :
    Computes Γ Many (l.forward slots [t] : Run α _) (l.evaluateOn slots parameter x) := by
  have hslot : ∀ i < l.declared.length,
      (.weight (slotAt slots i), parameter (slotAt slots i)) ∈ Γ := by
    intro i hi
    rw [← hlen] at hi
    have hmem : slotAt slots i ∈ slots := by simp [slotAt, hi]
    exact hslots _ hmem
  cases l with
  | linear units bias =>
    have hweight := hslot 0 (by simp [declared, weightAndBias])
    refine Computes.weight hweight (Computes.one (.matmul ht hweight) fun y _ => ?_)
    cases bias with
    | false => exact .single List.mem_cons_self
    | true =>
      have hbias := hslot 1 (by simp [declared, weightAndBias])
      refine Computes.weight (.tail _ hbias) (Computes.one (.add List.mem_cons_self
        (.tail _ hbias)) fun z _ => ?_)
      exact .single List.mem_cons_self
  | conv c =>
    have hweight := hslot 0 (by simp [declared, weightAndBias])
    have hconvolve : ∀ u shift, Option.Rel (fun u d => (u, d) ∈ Γ) u shift →
        Computes Γ Many (c.convolve slots t u : Run α _) (do
          return [← x.convolve (parameter (slotAt slots 0)) shift c.stride c.padding]) :=
      fun u shift hu => Computes.weight hweight (Computes.one (.convolve ht hweight hu _ _)
        fun y _ => .single List.mem_cons_self)
    rw [c.forward_eq, evaluateOn]
    cases hbias : c.bias with
    | false => exact hconvolve none none .none
    | true =>
      have hshift := hslot 1 (by simp [declared, weightAndBias, hbias])
      exact Computes.weight hshift (hconvolve _ _ (.some hshift))
  | batchNorm axis epsilon momentum =>
    have hgamma := hslot 0 (by simp [declared])
    have hbeta := hslot 1 (by simp [declared])
    have hmean := hslot 2 (by simp [declared])
    have hvariance := hslot 3 (by simp [declared])
    rw [forward_batchNorm]
    refine Computes.weight hgamma (Computes.weight hbeta (Computes.weight hmean
      (Computes.weight hvariance (Computes.get fun w hw => ?_))))
    rw [hw.1]
    refine Computes.one (.normalize ht hgamma hbeta hmean hvariance) fun y _ => ?_
    exact .single List.mem_cons_self
  | dropout rate =>
    intro w hw
    rw [forward_dropout, hw.1]
    exact Computes.single ht w hw
  | flatten =>
    rw [forward_flatten]
    refine Computes.value ht ?_
    rw [evaluateOn]
    cases x.extents with
    | nil => exact .throw _
    | cons n rest => exact Computes.one (.rearrange ht _) fun y _ => .single List.mem_cons_self
  | activation a =>
    have hrun : ((activation a).forward slots [t] : Run α _) =
        a.apply t >>= fun y => pure [y] := rfl
    rw [hrun]
    exact Computes.known (a.apply_computes ht) fun y => .single List.mem_cons_self
  | embedding rows width | wordEmbedding rows width =>
    have htable := hslot 0 (by simp [declared])
    exact Computes.weight htable (Computes.one (.embedding ht htable) fun y _ =>
      .single List.mem_cons_self)
  | recurrent r => exact RecurrentLayer.forward_computes hslots ht

theorem forward_computes (hlen : slots.length = l.declared.length)
    (hslots : ∀ i ∈ slots, (.weight i, parameter i) ∈ Γ) {ts : List Tensor}
    {xs : List (DenseArray α)} (hts : Many ts xs Γ) :
    Computes Γ Many (l.forward slots ts : Run α _) (l.evaluate slots parameter xs) := by
  cases hts with
  | nil => exact .fail _ _
  | cons ht hrest => cases hrest with
    | nil => exact forwardOn_computes hlen hslots ht
    | @cons u y ts xs _ hrest =>
      rw [evaluate, List.length_cons, List.length_cons, ← hrest.length_eq]
      · exact .fail _ _
      · simp

end Layer

end NeuralNet
