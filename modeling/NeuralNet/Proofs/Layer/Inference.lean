import NeuralNet.Proofs.Extents
import NeuralNet.Proofs.Layer.Forward

/-!
# What is inferred is what is made

The shapes that a layer infers for its outputs are those of the outputs that it makes:
`Makes.infers` from what is made, `makes_of_outputShapes` from what is inferred. The two differ in
one point. A linear layer makes a vector of a vector, but infers nothing for it.
-/

namespace NeuralNet.Layer

open Shape (leading)

variable {α : Type} [Scalar α] {l : Layer} {k : Nat} {training : Bool} {x : DenseArray α}
  {outs : List Extents} {shapes : List Shape}

/-- Whether outputs are inferred if they are made: not for vectors in a linear layer. -/
def infersFor (l : Layer) (x : DenseArray α) : Bool :=
  match l with
  | linear _ _ => x.rank != 1
  | _ => true

theorem axis_ne_zero {axis : Nat} {epsilon momentum : Single} {inputs : List Shape}
    (h : (batchNorm axis epsilon momentum).inputWidth inputs = .ok k) : axis ≠ 0 := by
  obtain ⟨r, hchannels, -⟩ := map_eq_ok_iff.mp h
  obtain ⟨s, -, hguard⟩ := bind_eq_ok_iff.mp hchannels
  exact fun haxis => (guard_eq_ok_iff.mp hguard).1 (.inl haxis)

theorem Makes.infers {inputs : List Shape} (h : l.Makes k training x outs)
    (hk : l.inputWidth inputs = .ok k) (hinfers : l.infersFor x = true) :
    l.outputShapes [Shape.ofExtents x.extents] = .ok (outs.map Shape.ofExtents) := by
  cases l with
  | linear units bias =>
    obtain ⟨hlast, -, rfl⟩ := h
    have hrank : x.extents.length ≠ 1 := by simpa [infersFor, DenseArray.rank] using hinfers
    cases hx : x.extents with
    | nil =>
      rw [hx] at hlast
      cases hlast
    | cons n tail =>
      have hne : tail ≠ [] := fun htail => hrank (by rw [hx, htail]; rfl)
      obtain ⟨m, rest, rfl⟩ := List.exists_cons_of_ne_nil hne
      exact outputShapes_leading.mpr ⟨(m :: rest).dropLast ++ [units], [], rfl, rfl, rfl⟩
  | conv c =>
    obtain ⟨batch, input, output, hx, hlen, hwindows, rfl⟩ := h
    rw [hx]
    refine outputShapes_leading.mpr ⟨c.filters :: output, [], ?_, rfl, rfl⟩
    have htail : (k :: input).length = c.kernel.length + 1 := congrArg (· + 1) hlen
    exact (if_pos htail).trans (Option.map_eq_some_iff.mpr ⟨output, hwindows, rfl⟩)
  | batchNorm axis epsilon momentum =>
    obtain ⟨haxis, rfl⟩ := h
    have hzero := axis_ne_zero hk
    obtain ⟨hlt, -⟩ := List.getElem?_eq_some_iff.mp haxis
    cases hx : x.extents with
    | nil => simp [hx] at hlt
    | cons n tail =>
      refine outputShapes_leading.mpr ⟨tail, [], ?_, rfl, rfl⟩
      rw [hx] at hlt
      refine if_neg ?_
      simp at hlt
      omega
  | dropout rate =>
    obtain ⟨-, rfl⟩ := h
    rfl
  | flatten =>
    obtain ⟨batch, rest, hx, -, rfl⟩ := h
    rw [hx]
    exact outputShapes_leading.mpr ⟨_, [], rfl, rfl, rfl⟩
  | activation a =>
    obtain rfl := h
    rfl
  | embedding rows width | wordEmbedding rows width =>
    obtain ⟨-, -, rfl⟩ := h
    cases x.extents with
    | nil => rfl
    | cons n tail => exact outputShapes_leading.mpr ⟨_, [], rfl, rfl, rfl⟩
  | recurrent r =>
    obtain ⟨batch, time, hx, -, -, rfl⟩ := h
    rw [hx]
    refine outputShapes_leading.mpr ⟨[time, r.stateSize],
      if r.returnState then r.stateExtents batch else [], rfl, ?_, rfl⟩
    rw [states?_recurrent]
    cases r.returnState <;> rfl

omit [Scalar α] in
theorem not_infers (h : l.infersFor x = false) :
    ∀ shapes, l.outputShapes [Shape.ofExtents x.extents] ≠ .ok shapes := by
  intro shapes hshapes
  cases l with
  | linear units bias =>
    have hrank : x.rank = 1 := by simpa [infersFor] using h
    obtain ⟨n, hx⟩ := List.length_eq_one_iff.mp hrank
    rw [hx] at hshapes
    obtain ⟨tail, states, htail, -⟩ := outputShapes_leading.mp hshapes
    cases htail
  | _ => cases h

/-! ## Inputs that inference accepts -/

/-- Sizes that no output has an empty axis by. -/
def sized : Layer → Bool
  | linear units _ => units != 0
  | embedding _ width | wordEmbedding _ width => width != 0
  | _ => true

/-- Whether all rows that are looked up are there. -/
def findsRows (l : Layer) (x : DenseArray α) : Bool :=
  match l with
  | embedding rows _ | wordEmbedding rows _ => x.namesRows rows
  | _ => true

/-- The extents of the arrays that are made for an input with a check of their size. -/
def allocates (l : Layer) (s : Extents) : List Extents :=
  match l with
  | linear units _ => [s.dropLast ++ [units]]
  | dropout _ => [s]
  | flatten => [[s.headD 0, Extents.size s.tail]]
  | embedding _ width | wordEmbedding _ width => [s ++ [width]]
  | recurrent r =>
    [s.dropLast ++ [r.cell.gates * r.stateSize], [r.depth, s.headD 0, r.stateSize]]
  | conv _ | batchNorm _ _ _ | activation _ => []

/-- Whether all arrays that are made for an input can be addressed, as those that fit a memory can
(`Extents.addressable`). -/
def hasRoom (l : Layer) (x : DenseArray α) : Bool := (l.allocates x.extents).all (·.addressable)

theorem windowCount?_ne_zero {extent kernel stride padding n : Nat}
    (h : windowCount? extent kernel stride padding = some n) : n ≠ 0 := by
  unfold windowCount? at h
  obtain ⟨-, h⟩ := Option.ite_none_left_eq_some.mp h
  cases h
  exact Nat.succ_ne_zero _

theorem windows?_ne_zero {c : ConvLayer} {input output : List Nat}
    (h : c.windows? input = some output) : ∀ n ∈ output, n ≠ 0 := by
  intro n hn
  obtain ⟨_, -, hwindow⟩ := exists_of_mem_right (mapM_eq_some_iff.mp h) hn
  exact windowCount?_ne_zero hwindow

theorem outputExtents_ne_zero {r : RecurrentLayer} {batch time : Nat} (hbatch : batch ≠ 0)
    (htime : time ≠ 0) : ∀ s ∈ r.outputExtents batch time, ∀ m ∈ s, m ≠ 0 := by
  have hdepth := r.depth_pos
  have hsize := r.stateSize_pos
  unfold RecurrentLayer.outputExtents RecurrentLayer.stateExtents
  cases r.returnState <;> cases r.cell.hasMemory <;> simp [*]

theorem makes_of_leading {n : Nat} {tail : List Nat} (hx : x.extents = n :: tail)
    (h : l.outputShapes [leading (some n) tail] = .ok shapes)
    (hk : l.inputWidth [leading (some n) tail] = .ok k) (hpos : ∀ m ∈ n :: tail, m ≠ 0)
    (hsized : l.sized = true) (hrows : l.findsRows x = true) (hroom : l.hasRoom x = true) :
    ∃ outs, l.Makes k training x outs ∧ shapes = outs.map Shape.ofExtents ∧
      ∀ s ∈ outs, ∀ m ∈ s, m ≠ 0 := by
  obtain ⟨tail', states, htail, hstates, rfl⟩ := outputShapes_leading.mp h
  have hk := inputWidth_leading.mp hk
  obtain ⟨hn, htailpos⟩ := List.forall_mem_cons.mp hpos
  have hroom : ∀ s ∈ l.allocates (n :: tail), s.addressable = true :=
    hx ▸ List.all_eq_true.mp hroom
  unfold Makes
  rw [hx]
  cases l with
  | linear units bias =>
    obtain ⟨hne, ⟨⟩⟩ := Option.ite_none_left_eq_some.mp htail
    cases hstates
    have hlast : (n :: tail).getLast? = some k := by
      obtain ⟨m, rest, rfl⟩ := List.exists_cons_of_ne_nil hne
      rw [List.getLast?_cons_cons]
      exact hk
    have hdrop : (n :: tail).dropLast = n :: tail.dropLast := List.dropLast_cons_of_ne_nil hne
    have hzero : k ≠ 0 := htailpos k (List.mem_of_getLast? hk)
    refine ⟨_, ⟨hlast, ?_, rfl⟩, by rw [hdrop]; rfl, List.forall_mem_singleton.mpr ?_⟩
    · exact DenseArray.contractsTo_of_ne_zero (hroom _ List.mem_cons_self) hzero
    · refine List.forall_mem_append.mpr ⟨fun m hm => hpos m (List.dropLast_subset _ hm), ?_⟩
      exact List.forall_mem_singleton.mpr (by simpa [sized] using hsized)
  | conv c =>
    obtain ⟨hlen, hwindows⟩ := Option.ite_none_right_eq_some.mp htail
    obtain ⟨output, houtput, rfl⟩ := Option.map_eq_some_iff.mp hwindows
    obtain ⟨channels, input, rfl⟩ := List.exists_cons_of_length_eq_add_one hlen
    obtain ⟨-, hchannels⟩ := Option.ite_none_right_eq_some.mp hk
    cases hchannels
    cases hstates
    refine ⟨_, ⟨n, input, output, rfl, Nat.succ.inj hlen, houtput, rfl⟩, rfl, ?_⟩
    refine List.forall_mem_singleton.mpr (List.forall_mem_cons.mpr ⟨hn, ?_⟩)
    exact List.forall_mem_cons.mpr ⟨c.filters_pos, windows?_ne_zero houtput⟩
  | batchNorm axis epsilon momentum =>
    obtain ⟨haxis, ⟨⟩⟩ := Option.ite_none_left_eq_some.mp htail
    obtain ⟨hzero, hk⟩ := Option.ite_none_left_eq_some.mp hk
    obtain ⟨below, rfl⟩ := Nat.exists_eq_succ_of_ne_zero hzero
    cases hstates
    exact ⟨_, ⟨hk, rfl⟩, rfl, List.forall_mem_singleton.mpr hpos⟩
  | dropout rate =>
    cases htail
    cases hstates
    exact ⟨_, ⟨fun _ => .inr (hroom _ List.mem_cons_self), rfl⟩, rfl,
      List.forall_mem_singleton.mpr hpos⟩
  | flatten =>
    cases htail
    cases hstates
    have hsize : Extents.size tail ≠ 0 := Nat.pos_iff_ne_zero.mp (Extents.size_pos htailpos)
    refine ⟨_, ⟨n, tail, rfl, hroom _ List.mem_cons_self, rfl⟩, rfl, ?_⟩
    exact List.forall_mem_singleton.mpr
      (List.forall_mem_cons.mpr ⟨hn, List.forall_mem_singleton.mpr hsize⟩)
  | activation a =>
    cases htail
    cases hstates
    exact ⟨_, rfl, rfl, List.forall_mem_singleton.mpr hpos⟩
  | embedding rows width | wordEmbedding rows width =>
    cases htail
    cases hstates
    have hwidth : width ≠ 0 := by simpa [sized] using hsized
    refine ⟨_, ⟨hrows, hroom _ List.mem_cons_self, rfl⟩, rfl, List.forall_mem_singleton.mpr ?_⟩
    exact List.forall_mem_append.mpr ⟨hpos, List.forall_mem_singleton.mpr hwidth⟩
  | recurrent r =>
    obtain ⟨hlen, ⟨⟩⟩ := Option.ite_none_right_eq_some.mp htail
    obtain ⟨-, hk⟩ := Option.ite_none_right_eq_some.mp hk
    obtain ⟨time, features, rfl⟩ := List.length_eq_two.mp hlen
    cases hk
    obtain ⟨hgates, hstack, -⟩ : Extents.addressable [n, time, r.cell.gates * r.stateSize] = true ∧
        Extents.addressable [r.depth, n, r.stateSize] = true ∧ True := by
      simpa [allocates] using hroom
    have hk : k ≠ 0 := htailpos k (by simp)
    have htime : time ≠ 0 := htailpos time (by simp)
    have hcontract := DenseArray.contractsTo_of_ne_zero hgates hk
    refine ⟨_, ⟨n, time, rfl, hcontract, fun _ => hstack, rfl⟩, ?_, ?_⟩
    · rw [states?_recurrent] at hstates
      unfold RecurrentLayer.outputExtents
      cases hreturn : r.returnState with
      | false =>
        rw [hreturn] at hstates
        cases hstates
        rfl
      | true =>
        rw [hreturn] at hstates
        cases hstates
        rfl
    · exact outputExtents_ne_zero hn htime

/-- An input without axes is passed on, or picks one row. -/
theorem makes_of_scalar (hx : x.extents = []) (h : l.outputShapes [Shape.scalar] = .ok shapes)
    (hsized : l.sized = true) (hrows : l.findsRows x = true) (hroom : l.hasRoom x = true) :
    ∃ outs, l.Makes k training x outs ∧ shapes = outs.map Shape.ofExtents ∧
      ∀ s ∈ outs, ∀ m ∈ s, m ≠ 0 := by
  have hroom : ∀ s ∈ l.allocates [], s.addressable = true := hx ▸ List.all_eq_true.mp hroom
  unfold Makes
  rw [hx]
  cases l with
  | linear | conv | flatten | recurrent => cases h
  | batchNorm axis epsilon momentum =>
    obtain ⟨r, hchannels, -⟩ := bind_eq_ok_iff.mp h
    obtain ⟨s, hs, hguard⟩ := bind_eq_ok_iff.mp hchannels
    cases hs
    exact absurd (.inr (Nat.zero_le axis)) (guard_eq_ok_iff.mp hguard).1
  | dropout rate =>
    cases h
    exact ⟨_, ⟨fun _ => .inr (hroom _ List.mem_cons_self), rfl⟩, rfl, by simp⟩
  | activation a =>
    cases h
    exact ⟨_, rfl, rfl, by simp⟩
  | embedding rows width | wordEmbedding rows width =>
    cases h
    have hwidth : width ≠ 0 := by simpa [sized] using hsized
    exact ⟨_, ⟨hrows, hroom _ List.mem_cons_self, rfl⟩, rfl, by simpa using hwidth⟩

/-- Where inference accepts an input of the width that the parameters are for, outputs are made as
inferred. -/
theorem makes_of_outputShapes (h : l.outputShapes [Shape.ofExtents x.extents] = .ok shapes)
    (hk : l.inputWidth [Shape.ofExtents x.extents] = .ok k) (hpos : ∀ m ∈ x.extents, m ≠ 0)
    (hsized : l.sized = true) (hrows : l.findsRows x = true) (hroom : l.hasRoom x = true) :
    ∃ outs, l.Makes k training x outs ∧ shapes = outs.map Shape.ofExtents ∧
      ∀ s ∈ outs, ∀ m ∈ s, m ≠ 0 := by
  cases hx : x.extents with
  | nil =>
    rw [hx] at h
    exact makes_of_scalar hx h hsized hrows hroom
  | cons n tail =>
    rw [hx] at h hk hpos
    exact makes_of_leading hx h hk hpos hsized hrows hroom

end NeuralNet.Layer
