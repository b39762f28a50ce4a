import NeuralNet.Proofs.Block.Forward
import NeuralNet.Proofs.Layer.Evaluation

/-!
# What a block computes in evaluation

The outputs of a block in evaluation as a function of arrays, layer after layer.

* `evaluate`: this function;
* `forward_evaluates`: a block whose parameters are resolved computes it;
* `Layer.evaluateOn_of_makes`, `Layer.makes_of_evaluateOn`: for which inputs the function of a layer
  has a value, and of which extents.
-/

namespace NeuralNet

open Run (Computes Follows Given Listed Many)

variable {α : Type} [Scalar α]

namespace Block

mutual

/-- The outputs of a block, whose parameters are told by their slots. -/
def evaluate (parameter : Nat → DenseArray α) :
    Block → List (DenseArray α) → Except Error (List (DenseArray α))
  | leaf l slots, inputs => l.evaluate slots parameter inputs
  | sequential bs, inputs => evaluateAll parameter bs inputs

def evaluateAll (parameter : Nat → DenseArray α) :
    List Block → List (DenseArray α) → Except Error (List (DenseArray α))
  | [], inputs => .ok inputs
  | b :: rest, inputs => do evaluateAll parameter rest (← b.evaluate parameter inputs)

end

/-! ## Computing it -/

variable {Γ : Environment α} {parameter : Nat → DenseArray α} {ts : List Tensor}
  {xs : List (DenseArray α)}

theorem slots_leaf {l : Layer} {slots : List Nat} (h : (leaf l slots).Complete) :
    (leaf l slots).slots = slots := by
  have hlen : slots.length ≤ (l.declared.map (·.1)).length := by
    rw [List.length_map]
    exact Nat.le_of_eq h
  rw [Block.slots, parameters, List.map_snd_zip hlen]

theorem slots_parametersFrom (place : Nat) (b : Block) (bs : List Block) :
    (parametersFrom place (b :: bs)).map (·.2) =
      b.slots ++ (parametersFrom (place + 1) bs).map (·.2) := by
  simp [parametersFrom, Block.slots, List.map_map, Function.comp_def]

mutual

theorem forward_computes : (b : Block) → {Γ : Environment α} → {ts : List Tensor} →
    {xs : List (DenseArray α)} → b.Complete → (∀ i ∈ b.slots, (.weight i, parameter i) ∈ Γ) →
    Many ts xs Γ → Computes Γ Many (b.forward ts : Run α _) (b.evaluate parameter xs)
  | leaf _ _, _, _, _, hcomplete, hslots, hts =>
    Layer.forward_computes hcomplete (slots_leaf hcomplete ▸ hslots) hts
  | sequential bs, _, _, _, hcomplete, hslots, hts => forwardAll_computes bs 1 hcomplete hslots hts

theorem forwardAll_computes : (bs : List Block) → (place : Nat) → {Γ : Environment α} →
    {ts : List Tensor} → {xs : List (DenseArray α)} → CompleteAll bs →
    (∀ i ∈ (parametersFrom place bs).map (·.2), (.weight i, parameter i) ∈ Γ) → Many ts xs Γ →
    Computes Γ Many (forwardAll bs ts : Run α _) (evaluateAll parameter bs xs)
  | [], _, _, _, _, _, _, hts => by
    unfold forwardAll evaluateAll
    exact .pure hts
  | b :: bs, place, Γ, ts, xs, hcomplete, hslots, hts => by
    rw [slots_parametersFrom] at hslots
    obtain ⟨hfirst, hrest⟩ := List.forall_mem_append.mp hslots
    unfold forwardAll evaluateAll
    refine Computes.bind (forward_computes b hcomplete.1 hfirst hts) fun ts' xs' Δ _ hts' => ?_
    exact forwardAll_computes bs (place + 1) hcomplete.2
      (fun i hi => List.mem_append_right Δ (hrest i hi))
      (hts'.subset (List.subset_append_left _ _))

end

end Block

/-! ## Blocks whose parameters are resolved -/

namespace Workspace

/-- What a parameter holds. -/
def parameter (w : Workspace α) (i : Nat) : DenseArray α := w.value (.weight i)

end Workspace

namespace Block

variable {b : Block} {w : Workspace α} {ts : List Tensor} {parameter : Nat → DenseArray α}

omit [Scalar α] in
theorem Follows.values {Γ : Environment α} {y : Except Error (List (DenseArray α))}
    {r : Except Error (List Tensor)} (h : Follows Γ Many y r w) : r.map (·.map w.value) = y := by
  cases y with
  | error e =>
    obtain rfl := h
    rfl
  | ok xs =>
    obtain ⟨ts, Δ, rfl, hts, hw⟩ := h
    have hmap := map_eq_map_of_forall₂ (f := w.value) (g := id) hts fun t a ht =>
      (hw.value (List.mem_append_left _ ht)).symm
    rw [List.map_id] at hmap
    exact congrArg Except.ok hmap.symm

/-- The parameters of a block, and some other arrays. -/
def environment (b : Block) (parameter : Nat → DenseArray α) (w : Workspace α) (ts : List Tensor) :
    Environment α :=
  b.slots.map (fun i => (.weight i, parameter i)) ++ ts.map fun t => (t, w.value t)

omit [Scalar α] in
theorem holds_environment (hresolved : b.isResolved w = true)
    (hparameter : ∀ i ∈ b.slots, w.parameter i = parameter i) (hmode : w.training = false)
    (hheld : ∀ t ∈ ts, w.holds t = true) : w.Holds (b.environment parameter w ts) := by
  refine ⟨hmode, List.forall_mem_append.mpr ⟨?_, ?_⟩⟩
  · refine List.forall_mem_map.mpr fun i hi =>
      Workspace.array?_eq_some.mpr ⟨?_, hparameter i hi⟩
    rw [Workspace.holds, Workspace.content?_eq]
    exact List.all_eq_true.mp hresolved i hi
  · exact List.forall_mem_map.mpr fun t ht => Workspace.array?_eq_some.mpr ⟨hheld t ht, rfl⟩

omit [Scalar α] in
theorem slot_mem_environment {i : Nat} (hi : i ∈ b.slots) :
    (.weight i, parameter i) ∈ b.environment parameter w ts :=
  List.mem_append_left _ (List.mem_map.mpr ⟨i, hi, rfl⟩)

omit [Scalar α] in
theorem mem_environment {t : Tensor} (ht : t ∈ ts) :
    (t, w.value t) ∈ b.environment parameter w ts :=
  List.mem_append_right _ (List.mem_map.mpr ⟨t, ht, rfl⟩)

/-- In evaluation a block whose parameters are resolved computes the function. -/
theorem forward_evaluates (hcomplete : b.Complete) (hresolved : b.isResolved w = true)
    (hparameter : ∀ i ∈ b.slots, w.parameter i = parameter i) (hmode : w.training = false)
    (hheld : ∀ t ∈ ts, w.holds t = true) :
    (b.forward ts w).1.map (·.map (b.forward ts w).2.value) =
      b.evaluate parameter (ts.map w.value) := by
  have hts : Many ts (ts.map w.value) (b.environment parameter w ts) :=
    List.forall₂_map_right_iff.mpr (List.forall₂_same.mpr fun t ht => mem_environment ht)
  exact Follows.values (forward_computes b hcomplete (fun i hi => slot_mem_environment hi) hts w
    (holds_environment hresolved hparameter hmode hheld))

end Block

namespace Layer

variable {l : Layer} {k : Nat} {slots : List Nat} {parameter : Nat → DenseArray α}
  {x : DenseArray α} {outs : List Extents}

/-- Parameters of the extents that the layer has for a width. -/
def Fitted (l : Layer) (k : Nat) (slots : List Nat) (parameter : Nat → DenseArray α) : Prop :=
  ∀ p ∈ slots.zip (l.parameterExtents k), (parameter p.1).extents = p.2

/-- A workspace in evaluation with these parameters, and an array as its only node. -/
def bench (slots : List Nat) (parameter : Nat → DenseArray α) (x : DenseArray α) : Workspace α :=
  { (Workspace.seeded 0 : Workspace α) with
    slots := Array.ofFn fun i : Fin (slots.max?.getD 0 + 1) =>
      ⟨"", .weight, true, none, some ⟨.float32, parameter i, none, true⟩⟩
    nodes := #[⟨x, none, false, none⟩] }

/-- What is known of it. -/
def benchEnvironment (slots : List Nat) (parameter : Nat → DenseArray α) (x : DenseArray α) :
    Environment α := (.node 0, x) :: slots.map fun i => (.weight i, parameter i)

omit [Scalar α] in
theorem bench_holds : (bench slots parameter x).Holds (benchEnvironment slots parameter x) := by
  refine ⟨rfl, List.forall_mem_cons.mpr ⟨?_, List.forall_mem_map.mpr fun i hi => ?_⟩⟩
  · simp [bench, Workspace.array?]
  · have hlt : i < slots.max?.getD 0 + 1 := Nat.lt_succ_of_le (List.le_max?_getD_of_mem hi)
    simp [bench, Workspace.array?, Workspace.slot, hlt]

omit [Scalar α] in
theorem bench_fitted (hfit : l.Fitted k slots parameter) :
    ∀ p ∈ slots.zip (l.parameterExtents k),
      (.weight p.1, p.2) ∈
        (benchEnvironment slots parameter x).map fun p => (p.1, p.2.extents) := by
  intro p hp
  rw [← hfit p hp]
  have hslot : p.1 ∈ slots := (List.of_mem_zip (a := p.1) (b := p.2) hp).1
  refine List.mem_map.mpr ⟨(.weight p.1, parameter p.1), .tail _ ?_, rfl⟩
  exact List.mem_map.mpr ⟨p.1, hslot, rfl⟩

/-- On this workspace the layer computes the function. -/
theorem bench_follows (hlen : slots.length = l.declared.length) :
    Follows (benchEnvironment slots parameter x) Many (l.evaluateOn slots parameter x)
      (l.forward slots [.node 0] (bench slots parameter x)).1
      (l.forward slots [.node 0] (bench slots parameter x)).2 := by
  have hinput : Many [.node 0] [x] (benchEnvironment slots parameter x) :=
    .cons List.mem_cons_self .nil
  refine forward_computes hlen (fun i hi => ?_) hinput _ bench_holds
  exact .tail _ (List.mem_map.mpr ⟨i, hi, rfl⟩)

/-- The function has a value, of the extents that the layer makes, where the layer makes outputs. -/
theorem evaluateOn_of_makes (hlen : slots.length = l.declared.length)
    (hfit : l.Fitted k slots parameter) (h : l.Makes k false x outs) :
    ∃ ys, l.evaluateOn slots parameter x = .ok ys ∧ ys.map (·.extents) = outs := by
  have hx : (bench slots parameter x).value (.node 0) = x := bench_holds.value List.mem_cons_self
  obtain ⟨ts, Δ, hok, ⟨rfl, rfl⟩, hmodels⟩ := forward_gives hlen (bench_fitted hfit)
    bench_holds.models (t := .node 0) (by rw [hx]; exact List.mem_cons_self) (hx.symm ▸ h)
  have hfollows : Follows (benchEnvironment slots parameter x) Many _ _ _ := bench_follows hlen
  cases heval : l.evaluateOn slots parameter x with
  | error e =>
    rw [heval] at hfollows
    cases hfollows.symm.trans hok
  | ok ys =>
    rw [heval] at hfollows
    obtain ⟨ts', Δ', hok', hmany, hholds⟩ := hfollows
    cases hok.symm.trans hok'
    have hys := map_eq_map_of_forall₂ (g := fun y : DenseArray α => y.extents) hmany
      fun t a ht => congrArg (·.extents) (hholds.value (List.mem_append_left _ ht)).symm
    refine ⟨ys, rfl, hys.trans ?_⟩
    rw [List.map_map]
    exact List.map_congr_left fun p hp =>
      Workspace.extents_value (hmodels p (List.mem_append_left _ hp))

/-- It has no value elsewhere. -/
theorem makes_of_evaluateOn {ys : List (DenseArray α)} (hlen : slots.length = l.declared.length)
    (hfit : l.Fitted k slots parameter) (h : l.evaluateOn slots parameter x = .ok ys) :
    l.Makes k false x (ys.map (·.extents)) := by
  have hx : (bench slots parameter x).value (.node 0) = x := bench_holds.value List.mem_cons_self
  by_cases hmakes : ∃ outs, l.Makes k false x outs
  · obtain ⟨outs, hmakes⟩ := hmakes
    obtain ⟨ys', hok, rfl⟩ := evaluateOn_of_makes hlen hfit hmakes
    cases h.symm.trans hok
    exact hmakes
  · obtain ⟨e, he⟩ := forward_fails hlen (bench_fitted hfit) bench_holds.models (t := .node 0)
      (by rw [hx]; exact List.mem_cons_self) (fun outs h => hmakes ⟨outs, hx ▸ h⟩)
    have hfollows : Follows (benchEnvironment slots parameter x) Many _ _ _ := bench_follows hlen
    rw [h] at hfollows
    obtain ⟨ts, -, hok, -⟩ := hfollows
    cases he.symm.trans hok

end Layer

end NeuralNet
