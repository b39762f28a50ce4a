import NeuralNet.Proofs.Layer.Parameters

/-!
# Open batches

Shapes are inferred with the batch axis left open, and what is inferred holds of every batch. A layer
that takes an open batch answers one shape, with an open batch again: the last states of a recurrent
layer, which need the batch, are refused. So the layers of a sequence see an open batch all along.
From one batch to another the states go along, and nothing but the batch is another.
-/

namespace NeuralNet

open Shape (leading)

/-- The shape for a batch, if it leaves the batch open. -/
def Shape.atBatch (n : Nat) (s : Shape) : Shape :=
  if s.unknownBatch then ⟨some n, s.tail, false⟩ else s

namespace Layer

variable {l : Layer} {tail tail' : List Nat} {outs : List Shape}

/-- Outputs need more of the input than parameters do. -/
theorem width?_isSome (h : l.outputTail? tail = some tail') : ∃ k, l.width? tail = some k := by
  cases l with
  | linear units bias =>
    obtain ⟨htail, -⟩ := Option.ite_none_left_eq_some.mp h
    exact ⟨_, List.getLast?_eq_some_getLast htail⟩
  | conv c =>
    obtain ⟨hlen, -⟩ := Option.ite_none_right_eq_some.mp h
    obtain ⟨channels, input, rfl⟩ := List.exists_cons_of_length_eq_add_one hlen
    exact ⟨channels, if_pos hlen⟩
  | batchNorm axis epsilon momentum =>
    obtain ⟨haxis, -⟩ := Option.ite_none_left_eq_some.mp h
    obtain ⟨hzero, hlen⟩ := not_or.mp haxis
    have hlt : axis - 1 < tail.length := by omega
    exact ⟨tail[axis - 1], (if_neg hzero).trans (List.getElem?_eq_getElem hlt)⟩
  | recurrent r =>
    obtain ⟨hlen, -⟩ := Option.ite_none_right_eq_some.mp h
    obtain ⟨time, features, rfl⟩ := List.length_eq_two.mp hlen
    exact ⟨features, rfl⟩
  | dropout | flatten | activation | embedding | wordEmbedding => exact ⟨0, rfl⟩

/-- No states without a batch, unless they are not asked for. -/
theorem states?_open {states : List Extents} (h : l.states? none = some states) :
    states = [] ∧ ∀ batch, l.states? batch = some [] := by
  cases l with
  | recurrent r =>
    change (if r.returnState then none else some []) = some states at h
    obtain ⟨hreturn, ⟨⟩⟩ := Option.ite_none_left_eq_some.mp h
    exact ⟨rfl, fun batch => if_neg hreturn⟩
  | _ =>
    cases h
    exact ⟨rfl, fun batch => rfl⟩

/-- A layer that takes an open batch takes every batch, with the same width, and passes it on. -/
theorem outputShapes_open (h : l.outputShapes [leading none tail] = .ok outs) :
    ∃ tail' k, outs = [leading none tail'] ∧
      ∀ batch, l.outputShapes [leading batch tail] = .ok [leading batch tail'] ∧
        l.inputWidth [leading batch tail] = .ok k := by
  obtain ⟨tail', states, htail, hstates, rfl⟩ := outputShapes_leading.mp h
  obtain ⟨k, hk⟩ := width?_isSome htail
  obtain ⟨rfl, hopen⟩ := states?_open hstates
  exact ⟨tail', k, rfl, fun batch =>
    ⟨outputShapes_leading.mpr ⟨tail', [], htail, hopen batch, rfl⟩, inputWidth_leading.mpr hk⟩⟩

/-- There are as many states for every batch. -/
theorem states?_batch {n : Nat} {states : List Extents} (h : l.states? (some n) = some states)
    (m : Nat) : ∃ states', l.states? (some m) = some states' ∧ states'.length = states.length := by
  cases l with
  | recurrent r =>
    rw [states?_recurrent] at h ⊢
    cases hreturn : r.returnState with
    | false =>
      rw [hreturn] at h
      cases h
      exact ⟨[], rfl, rfl⟩
    | true =>
      rw [hreturn] at h
      cases h
      refine ⟨_, rfl, ?_⟩
      unfold RecurrentLayer.stateExtents
      cases r.cell.hasMemory <;> rfl
  | _ =>
    cases h
    exact ⟨[], rfl, rfl⟩

end Layer

/-- The same shapes for another batch: as many, and the first with the same axes behind the batch. -/
def Rebatched (m : Nat) (inputs inputs' : List Shape) : Prop :=
  ∃ n tail rest rest', inputs = leading (some n) tail :: rest ∧
    inputs' = leading (some m) tail :: rest' ∧ rest'.length = rest.length

theorem Rebatched.rank {m k : Nat} {inputs inputs' : List Shape} (h : Rebatched m inputs inputs')
    (hrank : ∀ s ∈ inputs.head?, k ≤ s.rank) : ∀ s ∈ inputs'.head?, k ≤ s.rank := by
  obtain ⟨n, tail, rest, rest', rfl, rfl, -⟩ := h
  rintro s ⟨⟩
  exact hrank (leading (some n) tail) rfl

/-- A layer takes every batch if it takes one, with the same width. -/
theorem Layer.outputShapes_rebatched {l : Layer} {m : Nat} {inputs inputs' outs : List Shape}
    (h : l.outputShapes inputs = .ok outs) (hbatch : Rebatched m inputs inputs') :
    ∃ outs' k, l.outputShapes inputs' = .ok outs' ∧ Rebatched m outs outs' ∧
      l.inputWidth inputs = .ok k ∧ l.inputWidth inputs' = .ok k := by
  obtain ⟨n, tail, rest, rest', rfl, rfl, hlen⟩ := hbatch
  obtain ⟨_, hsingle⟩ := l.singleton_of_outputShapes h
  obtain rfl := (List.cons.inj hsingle).2
  obtain rfl := List.length_eq_zero_iff.mp hlen
  obtain ⟨tail', states, htail, hstates, rfl⟩ := outputShapes_leading.mp h
  obtain ⟨states', hstates', hcount⟩ := states?_batch hstates m
  obtain ⟨k, hk⟩ := width?_isSome htail
  refine ⟨_, k, outputShapes_leading.mpr ⟨tail', states', htail, hstates', rfl⟩, ?_,
    inputWidth_leading.mpr hk, inputWidth_leading.mpr hk⟩
  exact ⟨n, tail', _, _, rfl, rfl, by rw [List.length_map, List.length_map, hcount]⟩

namespace Block

variable {tail : List Nat} {outs : List Shape}

mutual

/-- A block that takes an open batch takes every batch, with the same plan, and passes it on. -/
theorem outputShapes_open : (b : Block) → {tail : List Nat} → {outs : List Shape} →
    b.outputShapes [leading none tail] = .ok outs →
    ∃ tail' plan, outs = [leading none tail'] ∧
      ∀ batch, b.outputShapes [leading batch tail] = .ok [leading batch tail'] ∧
        b.plan [leading batch tail] = .ok plan
  | leaf l slots, tail, outs, h => by
    obtain ⟨tail', k, rfl, hall⟩ := Layer.outputShapes_open h
    exact ⟨tail', _, rfl, fun batch => ⟨(hall batch).1, plan_leaf slots (hall batch).2⟩⟩
  | sequential bs, tail, outs, h => outputShapesAll_open bs h

theorem outputShapesAll_open : (bs : List Block) → {tail : List Nat} → {outs : List Shape} →
    outputShapesAll bs [leading none tail] = .ok outs →
    ∃ tail' plan, outs = [leading none tail'] ∧
      ∀ batch, outputShapesAll bs [leading batch tail] = .ok [leading batch tail'] ∧
        (sequential bs).plan [leading batch tail] = .ok plan
  | [], tail, outs, h => by
    cases h
    exact ⟨tail, [], rfl, fun batch => ⟨rfl, rfl⟩⟩
  | b :: bs, tail, outs, h => by
    obtain ⟨middle, hfirst, hrest⟩ := bind_eq_ok_iff.mp h
    obtain ⟨tail₁, plan₁, rfl, hb⟩ := outputShapes_open b hfirst
    obtain ⟨tail₂, plan₂, rfl, hbs⟩ := outputShapesAll_open bs hrest
    refine ⟨tail₂, plan₁ ++ plan₂, rfl, fun batch => ⟨?_, ?_⟩⟩
    · exact bind_eq_ok_iff.mpr ⟨_, (hb batch).1, (hbs batch).1⟩
    · exact plan_cons.mpr ⟨_, plan₁, plan₂, (hb batch).1, (hb batch).2, (hbs batch).2, rfl⟩

end

mutual

/-- A block that takes one batch takes every other, with the same plan. -/
theorem outputShapes_rebatched : (b : Block) → {m : Nat} → {inputs inputs' outs : List Shape} →
    b.outputShapes inputs = .ok outs → Rebatched m inputs inputs' →
    ∃ outs' plan, b.outputShapes inputs' = .ok outs' ∧ Rebatched m outs outs' ∧
      b.plan inputs = .ok plan ∧ b.plan inputs' = .ok plan
  | leaf l slots, m, inputs, inputs', outs, h, hbatch => by
    obtain ⟨outs', k, h', hbatch', hk, hk'⟩ := Layer.outputShapes_rebatched h hbatch
    exact ⟨outs', _, h', hbatch', plan_leaf slots hk, plan_leaf slots hk'⟩
  | sequential bs, m, inputs, inputs', outs, h, hbatch => outputShapesAll_rebatched bs h hbatch

theorem outputShapesAll_rebatched : (bs : List Block) → {m : Nat} →
    {inputs inputs' outs : List Shape} → outputShapesAll bs inputs = .ok outs →
    Rebatched m inputs inputs' →
    ∃ outs' plan, outputShapesAll bs inputs' = .ok outs' ∧ Rebatched m outs outs' ∧
      (sequential bs).plan inputs = .ok plan ∧ (sequential bs).plan inputs' = .ok plan
  | [], m, inputs, inputs', outs, h, hbatch => by
    cases h
    exact ⟨inputs', [], rfl, hbatch, rfl, rfl⟩
  | b :: bs, m, inputs, inputs', outs, h, hbatch => by
    obtain ⟨middle, hfirst, hrest⟩ := bind_eq_ok_iff.mp h
    obtain ⟨middle', plan₁, hfirst', hmiddle, hplan, hplan'⟩ :=
      outputShapes_rebatched b hfirst hbatch
    obtain ⟨outs', plan₂, hrest', houts, hplans, hplans'⟩ :=
      outputShapesAll_rebatched bs hrest hmiddle
    refine ⟨outs', plan₁ ++ plan₂, bind_eq_ok_iff.mpr ⟨middle', hfirst', hrest'⟩, houts, ?_, ?_⟩
    · exact plan_cons.mpr ⟨middle, plan₁, plan₂, hfirst, hplan, hplans, rfl⟩
    · exact plan_cons.mpr ⟨middle', plan₁, plan₂, hfirst', hplan', hplans', rfl⟩

end

/-- A block that takes one batch of some samples plans for all of them alike. -/
theorem plan_batches (b : Block) {n : Nat}
    (h : b.outputShapes [Shape.ofExtents (n :: tail)] = .ok outs) :
    ∃ plan, ∀ m, (∃ outs', b.outputShapes [Shape.ofExtents (m :: tail)] = .ok outs') ∧
      b.plan [Shape.ofExtents (m :: tail)] = .ok plan := by
  have hbatch : ∀ m, Rebatched m [Shape.ofExtents (n :: tail)] [Shape.ofExtents (m :: tail)] :=
    fun m => ⟨n, tail, [], [], rfl, rfl, rfl⟩
  obtain ⟨-, plan, -, -, hplan, -⟩ := b.outputShapes_rebatched h (hbatch n)
  refine ⟨plan, fun m => ?_⟩
  obtain ⟨outs', plan', h', -, hplan₁, hplan₂⟩ := b.outputShapes_rebatched h (hbatch m)
  cases hplan.symm.trans hplan₁
  exact ⟨⟨outs', h'⟩, hplan₂⟩

/-- What is inferred for an open batch holds of every batch: the shapes of the outputs are those for
the open batch, which all leave it open, with the batch filled in, and the parameters are planned
with the same extents. -/
theorem outputShapes_atBatch (b : Block) (tail : List Nat) (n : Nat) (outs : List Shape)
    (h : b.outputShapes [Shape.withUnknownBatch tail] = .ok outs) :
    b.outputShapes [Shape.ofExtents (n :: tail)] = .ok (outs.map (Shape.atBatch n)) ∧
      (∀ s ∈ outs, s.unknownBatch = true) ∧
      ∃ plan, b.plan [Shape.withUnknownBatch tail] = .ok plan ∧
        b.plan [Shape.ofExtents (n :: tail)] = .ok plan := by
  obtain ⟨tail', plan, rfl, hall⟩ := outputShapes_open b h
  obtain ⟨houtputs, hplan⟩ := hall (some n)
  refine ⟨houtputs, ?_, plan, (hall none).2, hplan⟩
  exact List.forall_mem_singleton.mpr rfl

theorem outputShapes_atBatch_nested :
    let r : RecurrentLayer := ⟨.gru, 2, 2, false, by decide, by decide⟩
    let b : Block := sequential [leaf (.embedding 7 3) [0],
      sequential [leaf (.recurrent r) [1, 2, 3, 4, 5, 6, 7, 8], leaf .flatten []],
      leaf (.linear 4 true) [9, 10]]
    b.outputShapes [Shape.withUnknownBatch [5]] = .ok [Shape.withUnknownBatch [4]] ∧
      b.outputShapes [Shape.ofExtents [6, 5]] = .ok [Shape.ofExtents [6, 4]] := by
  intro r b
  have hopen : b.outputShapes [Shape.withUnknownBatch [5]] = .ok [Shape.withUnknownBatch [4]] := by
    decide +kernel
  exact ⟨hopen, (outputShapes_atBatch b [5] 6 _ hopen).1⟩

end Block

end NeuralNet
