import Mathlib.Logic.Relation
import NeuralNet.Proofs.Block.Evaluation
import NeuralNet.Proofs.Block.Modes
import NeuralNet.Proofs.Block.Resolve

/-!
# Sequences in sequences

A sequence that stands in another one can be replaced by what it holds: shapes, plans, first values,
random numbers and outputs all go through the layers in their order, wherever these stand.

* `Interchangeable`: two sequences of blocks do the same wherever they are run;
* `Splices`: one sequence somewhere in a block is replaced by what it holds;
* `splice_alike`: the two blocks differ in the keys of their parameters only.
-/

namespace NeuralNet.Block

open Run

/-! ## One sequence after another -/

variable {bs cs : List Block} {inputs : List Shape} {xs ys : List (List Shape)}

theorem slots_parametersFrom_eq_flatMap (place : Nat) (bs : List Block) :
    (parametersFrom place bs).map (·.2) = bs.flatMap slots := by
  induction bs generalizing place with
  | nil => rfl
  | cons b bs ih => rw [slots_parametersFrom, ih, List.flatMap_cons]

theorem slots_sequential (bs : List Block) : (sequential bs).slots = bs.flatMap slots :=
  slots_parametersFrom_eq_flatMap 1 bs

theorem outputShapesAll_append (bs cs : List Block) (inputs : List Shape) :
    outputShapesAll (bs ++ cs) inputs = outputShapesAll bs inputs >>= outputShapesAll cs := by
  induction bs generalizing inputs with
  | nil => rfl
  | cons b bs ih =>
    rw [List.cons_append, outputShapesAll, outputShapesAll, bind_assoc]
    exact congrArg _ (funext ih)

/-- Asking for all inputs fails just as asking for the outputs. -/
theorem inputsAll_cases (bs : List Block) (inputs : List Shape) :
    (∃ e, outputShapesAll bs inputs = .error e ∧ inputsAll bs inputs = .error e) ∨
      ∃ outputs xs, outputShapesAll bs inputs = .ok outputs ∧ inputsAll bs inputs = .ok xs := by
  induction bs generalizing inputs with
  | nil => exact .inr ⟨inputs, [], rfl, rfl⟩
  | cons b bs ih =>
    unfold outputShapesAll inputsAll
    cases b.outputShapes inputs with
    | error e => exact .inl ⟨e, rfl, rfl⟩
    | ok outputs =>
      refine (ih outputs).imp ?_ ?_
      · rintro ⟨e, houtputs, hinputs⟩
        exact ⟨e, houtputs, by rw [ok_bind, hinputs]; rfl⟩
      · rintro ⟨last, xs, houtputs, hinputs⟩
        exact ⟨last, inputs :: xs, houtputs, by rw [ok_bind, hinputs]; rfl⟩

theorem inputsAll_append (bs cs : List Block) (inputs : List Shape) :
    inputsAll (bs ++ cs) inputs = do
      let xs ← inputsAll bs inputs
      return xs ++ (← inputsAll cs (← outputShapesAll bs inputs)) := by
  induction bs generalizing inputs with
  | nil => simp [inputsAll, outputShapesAll, ok_bind]
  | cons b bs ih =>
    rw [List.cons_append, inputsAll, inputsAll, outputShapesAll]
    cases b.outputShapes inputs with
    | error e => rfl
    | ok outputs => simp [ih, ok_bind]

theorem planAll_append (hlen : xs.length = bs.length) :
    planAll (bs ++ cs) (xs ++ ys) = do
      let first ← planAll bs xs
      return first ++ (← planAll cs ys) := by
  induction bs generalizing xs with
  | nil =>
    rw [List.length_eq_zero_iff.mp hlen]
    simp [planAll, ok_bind]
  | cons b bs ih =>
    cases xs with
    | nil => cases hlen
    | cons x xs =>
      rw [List.cons_append, List.cons_append, planAll, planAll, ih (Nat.succ.inj hlen)]
      simp only [bind_assoc, pure_bind, List.append_assoc]

/-- All shapes are asked for before any parameter is planned. -/
theorem plan_append (bs cs : List Block) (inputs : List Shape) :
    (sequential (bs ++ cs)).plan inputs = do
      let outputs ← outputShapesAll bs inputs
      let _ ← outputShapesAll cs outputs
      let first ← (sequential bs).plan inputs
      return first ++ (← (sequential cs).plan outputs) := by
  unfold plan
  rw [inputsAll_append]
  rcases inputsAll_cases bs inputs with ⟨e, houtputs, hinputs⟩ | ⟨outputs, xs, houtputs, hinputs⟩
  · rw [houtputs, hinputs]
    rfl
  rcases inputsAll_cases cs outputs with ⟨e, hlast, hothers⟩ | ⟨last, ys, hlast, hothers⟩
  · simp only [houtputs, hinputs, hlast, hothers, ok_bind, error_bind]
  · simp only [houtputs, hinputs, hlast, hothers, ok_bind, pure_bind]
    exact planAll_append (length_inputsAll hinputs)

/-! ## Sequences that do the same -/

variable {α : Type} [Scalar α]

namespace Moded

theorem blocks_append (ms ns : List Moded) : blocks (ms ++ ns) = blocks ms ++ blocks ns := by
  induction ms with
  | nil => rfl
  | cons m ms ih => rw [List.cons_append, blocks, blocks, ih, List.cons_append]

theorem setTrainingAll_append (training : Bool) (ms ns : List Moded) :
    setTrainingAll training (ms ++ ns) =
      setTrainingAll training ms ++ setTrainingAll training ns := by
  induction ms with
  | nil => rfl
  | cons m ms ih => rw [List.cons_append, setTrainingAll, setTrainingAll, ih, List.cons_append]

theorem forwardAll_append (ms ns : List Moded) (ts : List Tensor) :
    (forwardAll (ms ++ ns) ts : Run α (List Tensor)) = forwardAll ms ts >>= forwardAll ns := by
  induction ms generalizing ts with
  | nil => rfl
  | cons m ms ih =>
    rw [List.cons_append, forwardAll, forwardAll, bind_assoc]
    exact congrArg _ (funext ih)

variable (α) in
/-- Parts of a sequence that do the same wherever they are run. -/
structure Interchangeable (ms ns : List Moded) : Prop where
  slots : (blocks ms).flatMap Block.slots = (blocks ns).flatMap Block.slots
  outputShapes : outputShapesAll (blocks ms) = outputShapesAll (blocks ns)
  plan : (Block.sequential (blocks ms)).plan = (Block.sequential (blocks ns)).plan
  forward : (forwardAll ms : List Tensor → Run α (List Tensor)) = forwardAll ns

namespace Interchangeable

variable {ms ms' ns ns' : List Moded}

theorem refl (ms : List Moded) : Interchangeable α ms ms := ⟨rfl, rfl, rfl, rfl⟩

theorem symm (h : Interchangeable α ms ns) : Interchangeable α ns ms :=
  ⟨h.slots.symm, h.outputShapes.symm, h.plan.symm, h.forward.symm⟩

theorem trans (h : Interchangeable α ms ms') (k : Interchangeable α ms' ns) :
    Interchangeable α ms ns :=
  ⟨h.slots.trans k.slots, h.outputShapes.trans k.outputShapes, h.plan.trans k.plan,
    h.forward.trans k.forward⟩

theorem append (h : Interchangeable α ms ms') (k : Interchangeable α ns ns') :
    Interchangeable α (ms ++ ns) (ms' ++ ns') where
  slots := by
    rw [blocks_append, blocks_append, List.flatMap_append, List.flatMap_append, h.slots, k.slots]
  outputShapes := by
    funext inputs
    rw [blocks_append, blocks_append, outputShapesAll_append, outputShapesAll_append,
      h.outputShapes, k.outputShapes]
  plan := by
    funext inputs
    rw [blocks_append, blocks_append, plan_append, plan_append, h.outputShapes, k.outputShapes,
      h.plan, k.plan]
  forward := by
    funext ts
    rw [forwardAll_append, forwardAll_append, h.forward, k.forward]

/-- A sequence may stand for what it holds. -/
theorem unwrap (training : Bool) (ms : List Moded) :
    Interchangeable α [sequential training ms] ms where
  slots := by
    rw [blocks, blocks, List.flatMap_singleton, block, slots_sequential]
  outputShapes := by
    funext inputs
    exact bind_pure _
  plan := by
    funext inputs
    change inputsAll [.sequential (blocks ms)] inputs >>= planAll [.sequential (blocks ms)] = _
    rcases inputsAll_cases (blocks ms) inputs with
      ⟨e, houtputs, hinputs⟩ | ⟨outputs, _, houtputs, _⟩
    · simp only [inputsAll, Block.outputShapes, Block.plan, houtputs, hinputs, error_bind]
    · simp only [inputsAll, Block.outputShapes, houtputs, ok_bind, pure_bind, planAll,
        List.append_nil, bind_pure]
  forward := by
    funext ts
    exact bind_pure _

end Interchangeable

/-! ## Splicing -/

/-- One sequence somewhere in a block is replaced by what it holds. -/
inductive Splices : Moded → Moded → Prop
  | here (training mode : Bool) (before held after : List Moded) :
      Splices (sequential training (before ++ sequential mode held :: after))
        (sequential training (before ++ held ++ after))
  | inside (training : Bool) (before after : List Moded) {m n : Moded} (h : Splices m n) :
      Splices (sequential training (before ++ m :: after))
        (sequential training (before ++ n :: after))

variable {m n k : Moded}

theorem Splices.setTraining (training : Bool) (h : Splices m n) :
    Splices (m.setTraining training) (n.setTraining training) := by
  induction h with
  | here _ mode before held after =>
    simp only [Moded.setTraining, setTrainingAll_append, setTrainingAll]
    exact .here training training _ _ _
  | inside _ before after _ ih =>
    simp only [Moded.setTraining, setTrainingAll_append, setTrainingAll]
    exact .inside training _ _ ih

theorem Splices.interchangeable (h : Splices m n) : ∃ training ms ns,
    m = sequential training ms ∧ n = sequential training ns ∧ Interchangeable α ms ns := by
  induction h with
  | here training mode before held after =>
    refine ⟨training, _, _, rfl, rfl, ?_⟩
    rw [List.append_assoc]
    exact (Interchangeable.refl before).append
      ((Interchangeable.unwrap mode held).append (.refl after))
  | inside training before after _ ih =>
    obtain ⟨mode, ms, ns, rfl, rfl, h⟩ := ih
    have hinside : Interchangeable α [sequential mode ms] [sequential mode ns] :=
      (Interchangeable.unwrap mode ms).trans (h.trans (Interchangeable.unwrap mode ns).symm)
    exact ⟨training, _, _, rfl, rfl,
      (Interchangeable.refl before).append (hinside.append (.refl after))⟩

variable (α) in
/-- Two blocks with the same slots, in which the slots get the same values by the same random
numbers, and which compute the same. -/
structure Alike (m n : Moded) : Prop where
  isTraining : m.isTraining = n.isTraining
  /-- The parameters come in the same order. -/
  slots : m.block.slots = n.block.slots
  outputShapes : ∀ inputs, m.block.outputShapes inputs = n.block.outputShapes inputs
  /-- They are asked for in the same extents, or there is the same error. -/
  plan : ∀ inputs, m.block.plan inputs = n.block.plan inputs
  /-- The whole workspaces are the same after it, with all values and the source of random numbers,
  whether it fails or not. -/
  resolve : ∀ fallback inputs (w : Workspace α),
    m.block.resolve fallback inputs w = n.block.resolve fallback inputs w
  forward : ∀ ts (w : Workspace α), m.forward ts w = n.forward ts w

theorem Alike.refl (m : Moded) : Alike α m m :=
  ⟨rfl, rfl, fun _ => rfl, fun _ => rfl, fun _ _ _ => rfl, fun _ _ => rfl⟩

theorem Alike.trans (h : Alike α m n) (h' : Alike α n k) : Alike α m k where
  isTraining := h.isTraining.trans h'.isTraining
  slots := h.slots.trans h'.slots
  outputShapes inputs := (h.outputShapes inputs).trans (h'.outputShapes inputs)
  plan inputs := (h.plan inputs).trans (h'.plan inputs)
  resolve fallback inputs w := (h.resolve fallback inputs w).trans (h'.resolve fallback inputs w)
  forward ts w := (h.forward ts w).trans (h'.forward ts w)

theorem Interchangeable.alike {ms ns : List Moded} (training : Bool)
    (h : Interchangeable α ms ns) : Alike α (sequential training ms) (sequential training ns) where
  isTraining := rfl
  slots := by
    rw [block, block, slots_sequential, slots_sequential, h.slots]
  outputShapes := congrFun h.outputShapes
  plan := congrFun h.plan
  resolve fallback inputs w := by
    have houtputs : (sequential training ms).block.outputShapes =
        (sequential training ns).block.outputShapes := h.outputShapes
    have hplan : (sequential training ms).block.plan = (sequential training ns).block.plan := h.plan
    unfold Block.resolve
    rw [houtputs, hplan]
  forward ts w := congrFun (congrFun h.forward ts) w

theorem Splices.alike (h : Splices m n) : Alike α m n := by
  obtain ⟨training, ms, ns, rfl, rfl, hsame⟩ := h.interchangeable (α := α)
  exact hsame.alike training

theorem alike_of_splices (h : Relation.ReflTransGen Splices m n) : Alike α m n := by
  induction h with
  | refl => exact .refl m
  | tail _ hstep ih => exact ih.trans hstep.alike

/-- Replacing sequences by what they hold changes nothing but keys: neither how the parameters are
given their values nor what is computed, in whatever modes the layers are, and after switching. -/
theorem splice_alike (h : Relation.ReflTransGen Splices m n) :
    Alike α m n ∧ (∀ training, Alike α (m.setTraining training) (n.setTraining training)) ∧
      ∀ ts (w : Workspace α), m.block.forward ts w = n.block.forward ts w := by
  have hswitched (training : Bool) : Alike α (m.setTraining training) (n.setTraining training) :=
    alike_of_splices (Relation.ReflTransGen.lift _ (fun _ _ => .setTraining training) m n h)
  refine ⟨alike_of_splices h, hswitched, fun ts w => ?_⟩
  rw [← forward_of_mode, ← forward_of_mode]
  exact (hswitched w.training).forward ts w

/-- A sequence that holds an empty one, and another two levels deep. Both blocks get the same
values, under other keys. -/
theorem splice_alike_nested :
    let norm := leaf true (.batchNorm 1 Layer.defaultEpsilon Layer.defaultMomentum) [0, 1, 2, 3]
    let dense := leaf false (.linear 1 false) [4]
    let m := sequential false [sequential true [], sequential true [norm, sequential false [dense]]]
    let n := sequential false [norm, dense]
    let w : Workspace Single :=
      { Workspace.seeded 7 with
        slots := #[.declare "gamma" .gamma, .declare "beta" .beta,
          .declare "running_mean" .runningMean, .declare "running_var" .runningVar,
          .declare "weight" .weight] }
    let inputs := [Shape.ofExtents [2, 3]]
    m.block.parameters.map (·.1) ≠ n.block.parameters.map (·.1) ∧
      (m.block.resolve (.uniform .one) inputs w).1 = .ok [Shape.ofExtents [2, 1]] ∧
      m.block.resolve (.uniform .one) inputs w = n.block.resolve (.uniform .one) inputs w ∧
      ∀ training ts (w : Workspace Single),
        (m.setTraining training).forward ts w = (n.setTraining training).forward ts w := by
  intro norm dense m n w inputs
  have hsplices : Relation.ReflTransGen Splices m n :=
    .tail (.tail (.single (.here false true [] [] _)) (.here false true [] [norm, _] []))
      (.here false false [norm] [dense] [])
  obtain ⟨halike, hswitched, -⟩ := splice_alike (α := Single) hsplices
  refine ⟨by decide, ?_, halike.resolve _ _ w, fun training => (hswitched training).forward⟩
  rw [halike.resolve]
  decide +kernel

end Moded

end NeuralNet.Block
