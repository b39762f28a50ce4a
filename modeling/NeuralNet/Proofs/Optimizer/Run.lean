import Mathlib.Data.List.Count
import Mathlib.Logic.Function.Iterate
import NeuralNet.Proofs.Session.Law

/-!
# Runs of an optimizer

Each step finds parameters that are trainable or frozen, with gradients or without. It changes the
values of those that have a gradient to follow, and the moments that are kept for them. The moments
follow from the gradients alone; how often a parameter is listed shows in its values.

* `advanceAll_eq`: one step over a list of parameters;
* `run_eq`: a whole run, in which every parameter takes a course of its own.
-/

namespace NeuralNet

variable {α : Type}

/-- What a step finds: which parameters are trainable, and the gradients that they have. -/
structure Situation (α : Type) where
  trainable : Nat → Bool
  grad : Nat → Option (DenseArray α)

/-- The gradient that a parameter is to follow. -/
def Situation.pull (s : Situation α) (i : Nat) : Option (DenseArray α) :=
  if s.trainable i then s.grad i else none

namespace Slot

variable {p : Slot α} {s : Situation α} {i : Nat}

def pull (p : Slot α) : Option (DenseArray α) :=
  if p.trainable then p.content.bind (·.grad) else none

/-- The parameter in a situation. -/
def under (p : Slot α) (s : Situation α) (i : Nat) : Slot α :=
  { p with
    trainable := s.trainable i
    content := p.content.map fun c => { c with grad := s.grad i } }

theorem isResolved_under (p : Slot α) (s : Situation α) (i : Nat) :
    (p.under s i).isResolved = p.isResolved := by
  simp [Slot.isResolved, under]

theorem pull_under (h : p.isResolved = true) : (p.under s i).pull = s.pull i := by
  obtain ⟨c, hc⟩ := Option.isSome_iff_exists.mp h
  simp [Slot.pull, Situation.pull, under, hc]

end Slot

namespace Workspace

variable {w : Workspace α} {i : Nat} {f g : Nat → Slot α → Slot α}

/-- Every parameter is changed, each in its own way. -/
def mapSlots (w : Workspace α) (f : Nat → Slot α → Slot α) : Workspace α :=
  { w with slots := w.slots.mapIdx f }

theorem slot_mapSlots (h : i < w.slots.size) : (w.mapSlots f).slot i = f i (w.slot i) := by
  simp [slot, mapSlots, h]

theorem mapSlots_mapSlots (w : Workspace α) (f g : Nat → Slot α → Slot α) :
    (w.mapSlots f).mapSlots g = w.mapSlots fun i p => g i (f i p) := by
  simp [mapSlots, Function.comp_def]

theorem mapSlots_congr (h : ∀ i < w.slots.size, f i (w.slot i) = g i (w.slot i)) :
    w.mapSlots f = w.mapSlots g := by
  have hslots : w.slots.mapIdx f = w.slots.mapIdx g := by
    refine Array.ext (by simp) fun i hi _ => ?_
    rw [Array.size_mapIdx] at hi
    have heq := h i hi
    simpa [slot, hi] using heq
  rw [mapSlots, hslots]
  rfl

theorem mapSlots_id (w : Workspace α) : (w.mapSlots fun _ p => p) = w := by
  have hslots : (w.slots.mapIdx fun _ p => p) = w.slots := Array.ext (by simp) (by simp)
  rw [mapSlots, hslots]

theorem modifySlot_eq_mapSlots (w : Workspace α) (i : Nat) (p : Slot α) :
    (w.modifySlot i fun _ => p) = w.mapSlots fun j q => if j = i then p else q := by
  have hslots : (w.slots.modify i fun _ => p) =
      w.slots.mapIdx fun j q => if j = i then p else q := by
    refine Array.ext (by simp) fun j _ _ => ?_
    simp [Array.getElem_modify, eq_comm]
  rw [mapSlots, ← hslots]
  rfl

/-- The parameters in a situation. -/
def under (w : Workspace α) (s : Situation α) : Workspace α := w.mapSlots fun i p => p.under s i

end Workspace

namespace Optimizer

variable [Scalar α]

/-- A parameter without moments. -/
def start (i : Nat) : Tracked α := ⟨i, none, none⟩

/-- An optimizer before its first step. -/
def fresh (settings : OptimizerSettings) (slots : List Nat) : Optimizer α :=
  ⟨settings, 0, slots.map start⟩

/-- Step after step, each in its situation, up to the first that fails. -/
def run : List (Situation α) → Optimizer α → Workspace α →
    Except Error Unit × Optimizer α × Workspace α
  | [], o, w => (.ok (), o, w)
  | s :: rest, o, w =>
    match o.step (w.under s) with
    | (.ok (), o, w) => run rest o w
    | (.error e, o, w) => (.error e, o, w)

variable {settings : OptimizerSettings} {steps : Nat} {t : Tracked α} {p : Slot α}

/-! ## One visit -/

/-- The moments after a step. -/
def moved (settings : OptimizerSettings) (steps : Nat) (t : Tracked α) :
    Option (DenseArray α) → Tracked α
  | none => t
  | some g => (update settings steps t g g).1

/-- The parameter after it was visited with these moments. -/
def visit (settings : OptimizerSettings) (steps : Nat) (t : Tracked α) (p : Slot α) : Slot α :=
  match p.pull with
  | none => p
  | some g =>
    { p with
      content := p.content.map fun c =>
        { c with data := Content.quantized c.type (update settings steps t c.data g).2 } }

/-- Moments do not depend on the values. -/
theorem update_fst (settings : OptimizerSettings) (steps : Nat) (t : Tracked α)
    (data data' g : DenseArray α) :
    (update settings steps t data g).1 = (update settings steps t data' g).1 := by
  cases settings with
  | sgd rate momentum =>
    unfold update
    dsimp only
    split <;> rfl
  | adam => rfl

theorem slot_moved (g : Option (DenseArray α)) : (moved settings steps t g).slot = t.slot := by
  cases g with
  | none => rfl
  | some g => exact slot_update ..

theorem isResolved_visit (p : Slot α) :
    (visit settings steps t p).isResolved = p.isResolved := by
  unfold visit
  split <;> simp [Slot.isResolved]

/-- A visit leaves the gradient for the next one. -/
theorem pull_visit (p : Slot α) : (visit settings steps t p).pull = p.pull := by
  unfold visit
  split
  · rfl
  · simp [Slot.pull, Option.bind_map]

theorem isResolved_iterate_visit (n : Nat) (p : Slot α) :
    ((visit settings steps t)^[n] p).isResolved = p.isResolved := by
  induction n generalizing p with
  | zero => rfl
  | succ n ih => rw [Function.iterate_succ_apply, ih, isResolved_visit]

theorem pull_iterate_visit (n : Nat) (p : Slot α) :
    ((visit settings steps t)^[n] p).pull = p.pull := by
  induction n generalizing p with
  | zero => rfl
  | succ n ih => rw [Function.iterate_succ_apply, ih, pull_visit]

theorem advance_eq (h : p.isResolved = true) : advance settings steps t p =
    .ok (moved settings steps t p.pull, visit settings steps t p) := by
  obtain ⟨c, hc⟩ := Option.isSome_iff_exists.mp h
  have hrequire : p.require = .ok c := by rw [Slot.require, hc]
  unfold advance visit Slot.pull
  rw [hrequire, hc, ok_bind]
  cases htrainable : p.trainable with
  | false => rfl
  | true =>
    have hpull : (some c).bind (·.grad) = c.grad := rfl
    rw [if_pos rfl, if_neg (by decide), hpull]
    cases hg : c.grad with
    | none => rfl
    | some g =>
      rw [moved, update_fst settings steps t g c.data g]
      dsimp only [Option.map_some]
      rw [hg]
      rfl

/-! ## One step -/

/-- A step visits every parameter as often as it is listed, always with the same moments. -/
theorem advanceAll_eq {moments : Nat → Tracked α} (hmoments : ∀ i, (moments i).slot = i)
    (slots : List Nat) (w : Workspace α) (h : ∀ i ∈ slots, (w.slot i).isResolved = true) :
    advanceAll settings steps (slots.map moments) w =
      (.ok (), slots.map fun i => moved settings steps (moments i) (w.slot i).pull,
        w.mapSlots fun i => (visit settings steps (moments i))^[slots.count i]) := by
  -- The rest of the list comes to a workspace in which the first parameter was visited. There it is
  -- still resolved, with the gradient that it had, so the rest keeps the same moments for it.
  induction slots generalizing w with
  | nil => exact congrArg (Except.ok (), [], ·) w.mapSlots_id.symm
  | cons i slots ih =>
    obtain ⟨hi, hslots⟩ := List.forall_mem_cons.mp h
    let visited := w.modifySlot i fun _ => visit settings steps (moments i) (w.slot i)
    have hcases (j : Nat) := w.slot_modifySlot_cases j i fun _ =>
      visit settings steps (moments i) (w.slot i)
    have hresolved (j : Nat) : (visited.slot j).isResolved = (w.slot j).isResolved := by
      rcases hcases j with hsame | ⟨rfl, hslot⟩
      · exact congrArg _ hsame
      · exact (congrArg _ hslot).trans (isResolved_visit _)
    have hpull (j : Nat) : (visited.slot j).pull = (w.slot j).pull := by
      rcases hcases j with hsame | ⟨rfl, hslot⟩
      · exact congrArg _ hsame
      · exact (congrArg _ hslot).trans (pull_visit _)
    have hvisited : visited = w.mapSlots fun j p =>
        if j = i then visit settings steps (moments i) p else p := by
      refine (w.modifySlot_eq_mapSlots i _).trans (Workspace.mapSlots_congr fun j _ => ?_)
      split
      · rename_i hj
        rw [hj]
      · rfl
    rw [List.map_cons, advanceAll, hmoments, advance_eq hi]
    dsimp only
    rw [slot_moved, hmoments, ih visited fun j hj => (hresolved j).trans (hslots j hj)]
    simp only [hpull]
    rw [hvisited, Workspace.mapSlots_mapSlots]
    refine congrArg (Except.ok (), _, ·) (Workspace.mapSlots_congr fun j _ => ?_)
    by_cases hj : j = i
    · rw [if_pos hj, hj, List.count_cons_self, Function.iterate_succ_apply]
    · rw [if_neg hj, List.count_cons_of_ne (Ne.symm hj)]

/-! ## Whole runs -/

/-- The moments that are kept of a parameter after a run; steps are counted on. -/
def keptMoments (settings : OptimizerSettings) (i : Nat) :
    Nat → List (Situation α) → Tracked α → Tracked α
  | _, [], t => t
  | steps, s :: rest, t =>
    keptMoments settings i (steps + 1) rest (moved settings (steps + 1) t (s.pull i))

/-- A parameter after a run that visits it several times in each step. -/
def course (settings : OptimizerSettings) (i times : Nat) :
    Nat → List (Situation α) → Tracked α → Slot α → Slot α
  | _, [], _, p => p
  | steps, s :: rest, t, p =>
    course settings i times (steps + 1) rest (moved settings (steps + 1) t (s.pull i))
      ((visit settings (steps + 1) t)^[times] (p.under s i))

/-- One step in its situation. -/
theorem step_under {moments : Nat → Tracked α} (hmoments : ∀ i, (moments i).slot = i)
    {slots : List Nat} (s : Situation α) {w : Workspace α}
    (h : ∀ i ∈ slots, (w.slot i).isResolved = true) :
    step ⟨settings, steps, slots.map moments⟩ (w.under s) =
      (.ok (),
        ⟨settings, steps + 1,
          slots.map fun i => moved settings (steps + 1) (moments i) (s.pull i)⟩,
        w.mapSlots fun i p =>
          (visit settings (steps + 1) (moments i))^[slots.count i] (p.under s i)) := by
  have hslot : ∀ i ∈ slots, (w.under s).slot i = (w.slot i).under s i := fun i hi =>
    Workspace.slot_mapSlots (w.lt_size_of_isResolved (h i hi))
  have hresolved : ∀ i ∈ slots, ((w.under s).slot i).isResolved = true := fun i hi => by
    rw [hslot i hi, Slot.isResolved_under]
    exact h i hi
  have htracked : (slots.map fun i =>
      moved settings (steps + 1) (moments i) ((w.under s).slot i).pull) =
      slots.map fun i => moved settings (steps + 1) (moments i) (s.pull i) :=
    List.map_congr_left fun i hi => by rw [hslot i hi, Slot.pull_under (h i hi)]
  unfold step
  dsimp only
  rw [advanceAll_eq hmoments slots _ hresolved, htracked]
  exact congrArg (Except.ok (), _, ·) (w.mapSlots_mapSlots _ _)

/-- What a run comes to: every parameter takes its own course, as often as it is listed. -/
theorem run_eq (settings : OptimizerSettings) (steps : Nat) {moments : Nat → Tracked α}
    (hmoments : ∀ i, (moments i).slot = i) {slots : List Nat} (situations : List (Situation α))
    {w : Workspace α} (h : ∀ i ∈ slots, (w.slot i).isResolved = true) :
    run situations ⟨settings, steps, slots.map moments⟩ w =
      (.ok (),
        ⟨settings, steps + situations.length,
          slots.map fun i => keptMoments settings i steps situations (moments i)⟩,
        w.mapSlots fun i => course settings i (slots.count i) steps situations (moments i)) := by
  induction situations generalizing steps moments w with
  | nil => exact congrArg (Except.ok (), _, ·) w.mapSlots_id.symm
  | cons s rest ih =>
    have hresolved : ∀ i ∈ slots, ((w.mapSlots fun i p =>
        (visit settings (steps + 1) (moments i))^[slots.count i] (p.under s i)).slot i).isResolved =
          true := fun i hi => by
      rw [Workspace.slot_mapSlots (w.lt_size_of_isResolved (h i hi)), isResolved_iterate_visit,
        Slot.isResolved_under]
      exact h i hi
    rw [run, step_under hmoments s h]
    dsimp only
    rw [ih (steps + 1) (fun i => (slot_moved _).trans (hmoments i)) hresolved,
      Workspace.mapSlots_mapSlots, List.length_cons, Nat.add_right_comm, Nat.add_assoc]
    rfl

end Optimizer

end NeuralNet
