import Mathlib.Data.List.Basic
import Mathlib.Data.List.Nodup
import Mathlib.Data.List.Sigma
import NeuralNet.Proofs.Tape.Order

/-!
# The graph on the tape

An array is linked to the inputs of the operation that made it, once for every place where it stands
among them. A gradient is carried along a path of links by what the operations do with it.

* `mem_paths`, `nodup_paths`: all paths between two arrays, each once;
* `recorded_leaf`, `recorded_record`: what is put on the tape is linked to what is there already.
-/

namespace NeuralNet

open Relation (ReflTransGen)

variable {α : Type}

/-- An operation, and one place among its inputs. -/
structure Link (α : Type) where
  op : Operation α
  position : Nat
  target : Tensor

/-- Nodes come later than what they were computed from. -/
def Tensor.rank : Tensor → Nat
  | .weight _ => 0
  | .node id => id + 1

namespace Workspace

variable {w : Workspace α} {s t u : Tensor} {op : Operation α} {l : Link α} {p : List (Link α)}

/-- How an array was computed, if a gradient can be sent back. -/
def origin (w : Workspace α) : Tensor → Option (Operation α)
  | .weight _ => none
  | .node id => w.nodes[id]?.bind (·.origin)

def links (w : Workspace α) (t : Tensor) : List (Link α) :=
  match w.origin t with
  | some op => op.inputs.zipIdx.map fun (u, position) => ⟨op, position, u⟩
  | none => []

/-- An array that another one was computed from, directly or not, or the array itself. -/
def Reaches (w : Workspace α) : Tensor → Tensor → Prop :=
  ReflTransGen fun s t => ∃ l ∈ w.links s, l.target = t

/-- Results come after their inputs, and want a gradient. -/
structure Recorded (w : Workspace α) : Prop where
  earlier : ∀ {t op}, w.origin t = some op → ∀ u ∈ op.inputs, u.rank < t.rank
  wanted : ∀ {t op}, w.origin t = some op → w.requiresGrad t = true

theorem origin_of_mem_links (h : l ∈ w.links t) : w.origin t = some l.op := by
  unfold links at h
  split at h
  · rename_i op hop
    obtain ⟨_, -, rfl⟩ := List.mem_map.mp h
    exact hop
  · cases h

theorem target_mem_inputs (h : l ∈ w.links t) : l.target ∈ l.op.inputs := by
  unfold links at h
  split at h
  · obtain ⟨⟨u, position⟩, hu, rfl⟩ := List.mem_map.mp h
    exact List.fst_mem_of_mem_zipIdx hu
  · cases h

theorem exists_link (h : w.origin t = some op) (hu : u ∈ op.inputs) :
    ∃ l ∈ w.links t, l.target = u := by
  obtain ⟨i, hi, rfl⟩ := List.mem_iff_getElem.mp hu
  refine ⟨⟨op, i, op.inputs[i]⟩, ?_, rfl⟩
  unfold links
  rw [h]
  refine List.mem_map.mpr ⟨(op.inputs[i], i), ?_, rfl⟩
  exact List.mem_zipIdx_iff_getElem?.mpr (List.getElem?_eq_getElem hi)

theorem nodup_links (w : Workspace α) (t : Tensor) : (w.links t).Nodup := by
  unfold links
  split
  · rename_i op _
    have hpositions := op.inputs.nodup_zipIdx_map_snd
    rw [List.Nodup, List.pairwise_map] at hpositions ⊢
    refine hpositions.imp ?_
    intro a b hne heq
    exact hne (Link.mk.inj heq).2.1
  · exact .nil

theorem Recorded.rank_lt (hw : w.Recorded) (h : l ∈ w.links t) : l.target.rank < t.rank :=
  hw.earlier (origin_of_mem_links h) _ (target_mem_inputs h)

/-! ## Paths -/

/-- Each link starts where the one before it ends. -/
def IsPath (w : Workspace α) : Tensor → List (Link α) → Tensor → Prop
  | s, [], t => s = t
  | s, l :: p, t => l ∈ w.links s ∧ w.IsPath l.target p t

/-- All paths between two arrays. -/
def paths (w : Workspace α) (s t : Tensor) : List (List (Link α)) :=
  (if s = t then [[]] else []) ++
    (w.links s).flatMap fun l =>
      if _h : l.target.rank < s.rank then (w.paths l.target t).map (l :: ·) else []
termination_by s.rank

theorem Recorded.paths_eq (hw : w.Recorded) (s t : Tensor) :
    w.paths s t = (if s = t then [[]] else []) ++
      (w.links s).flatMap fun l => (w.paths l.target t).map (l :: ·) := by
  rw [paths]
  congr 1
  refine List.flatMap_congr fun l hl => ?_
  rw [dif_pos (hw.rank_lt hl)]

theorem Recorded.mem_paths (hw : w.Recorded) : p ∈ w.paths s t ↔ w.IsPath s p t := by
  induction p generalizing s with
  | nil =>
    rw [hw.paths_eq, IsPath]
    by_cases h : s = t <;> simp [h]
  | cons l p ih =>
    rw [hw.paths_eq, IsPath, ← ih]
    by_cases h : s = t <;> simp [h]

theorem Recorded.nodup_paths (hw : w.Recorded) (s t : Tensor) : (w.paths s t).Nodup := by
  induction hs : s.rank using Nat.strongRecOn generalizing s with
  | ind n ih =>
    subst hs
    rw [hw.paths_eq]
    refine List.nodup_append.mpr ⟨?_, ?_, ?_⟩
    · split <;> simp
    · refine List.nodup_flatMap.mpr ⟨?_, ?_⟩
      · intro l hl
        exact (ih _ (hw.rank_lt hl) l.target rfl).map (List.cons_injective)
      · refine (w.nodup_links s).imp ?_
        intro l l' hne p hp hp'
        obtain ⟨q, -, rfl⟩ := List.mem_map.mp hp
        obtain ⟨q', -, hq⟩ := List.mem_map.mp hp'
        exact hne (List.cons.inj hq).1.symm
    · intro p hp q hq hpq
      subst hpq
      obtain ⟨l, -, hq⟩ := List.mem_flatMap.mp hq
      obtain ⟨r, -, rfl⟩ := List.mem_map.mp hq
      split at hp <;> simp at hp

theorem exists_path : (∃ p, w.IsPath s p t) ↔ w.Reaches s t := by
  constructor
  · rintro ⟨p, hp⟩
    induction p generalizing s with
    | nil =>
      obtain rfl : s = t := hp
      exact .refl
    | cons l p ih =>
      obtain ⟨hl, hp⟩ := hp
      exact .head ⟨l, hl, rfl⟩ (ih hp)
  · intro h
    induction h using ReflTransGen.head_induction_on with
    | refl => exact ⟨[], rfl⟩
    | head hl _ ih =>
      obtain ⟨l, hl, rfl⟩ := hl
      obtain ⟨p, hp⟩ := ih
      exact ⟨l :: p, hl, hp⟩

theorem Recorded.paths_ne_nil (hw : w.Recorded) : w.paths s t ≠ [] ↔ w.Reaches s t := by
  simp only [← exists_path, ← hw.mem_paths]
  constructor
  · intro h
    exact List.exists_mem_of_ne_nil _ h
  · rintro ⟨p, hp⟩
    exact List.ne_nil_of_mem hp

/-! ## Nodes -/

theorem Recorded.mem_sources (hw : w.Recorded) {id n : Nat} :
    n ∈ w.sources id ↔ ∃ l ∈ w.links (.node id), l.target = .node n := by
  have horigin : w.nodes[id]?.bind (·.origin) = w.origin (.node id) := rfl
  unfold sources
  rw [horigin]
  constructor
  · intro h
    split at h
    · rename_i op hop
      obtain ⟨u, hu, hn⟩ := List.mem_filterMap.mp h
      cases u with
      | weight slot => cases hn
      | node m =>
        obtain ⟨-, hn⟩ := Option.ite_none_right_eq_some.mp hn
        cases hn
        exact exists_link hop hu
    · cases h
  · rintro ⟨l, hl, ht⟩
    have hlt := hw.rank_lt hl
    rw [ht] at hlt
    rw [origin_of_mem_links hl]
    refine List.mem_filterMap.mpr ⟨l.target, target_mem_inputs hl, ?_⟩
    rw [ht]
    exact if_pos (Nat.lt_of_succ_lt_succ hlt)

theorem Recorded.behind_iff (hw : w.Recorded) {id n : Nat} :
    w.Behind id n ↔ w.Reaches (.node id) (.node n) := by
  constructor
  · intro h
    exact h.lift Tensor.node fun _ _ hs => hw.mem_sources.mp hs
  · intro h
    generalize ht : Tensor.node n = t at h
    induction h generalizing n with
    | refl =>
      cases ht
      exact .refl
    | tail _ hl ih =>
      rename_i u v _
      subst ht
      cases u with
      | weight slot =>
        obtain ⟨l, hl, -⟩ := hl
        cases hl
      | node m => exact .tail (ih rfl) (hw.mem_sources.mpr hl)

/-! ## What is put on the tape -/

theorem origin_push (w : Workspace α) (node : Node α) (t : Tensor) :
    ({ w with nodes := w.nodes.push node } : Workspace α).origin t =
      if t = .node w.nodes.size then node.origin else w.origin t := by
  cases t with
  | weight slot => rfl
  | node id =>
    simp only [origin, Array.getElem?_push, Tensor.node.injEq]
    split <;> rfl

theorem requiresGrad_push (w : Workspace α) (node : Node α) (t : Tensor) :
    ({ w with nodes := w.nodes.push node } : Workspace α).requiresGrad t =
      if t = .node w.nodes.size then node.requiresGrad else w.requiresGrad t := by
  cases t with
  | weight slot => rfl
  | node id =>
    simp only [requiresGrad, Array.getElem?_push, Tensor.node.injEq]
    split <;> rfl

theorem gradient_push (w : Workspace α) (node : Node α) (t : Tensor) :
    ({ w with nodes := w.nodes.push node } : Workspace α).gradient t =
      if t = .node w.nodes.size then node.grad else w.gradient t := by
  cases t with
  | weight slot => rfl
  | node id =>
    simp only [gradient, Array.getElem?_push, Tensor.node.injEq]
    split <;> rfl

theorem rank_le_of_holds (h : w.holds t = true) : t.rank ≤ w.nodes.size := by
  cases t with
  | weight slot => exact Nat.zero_le _
  | node id => exact Nat.succ_le_of_lt (of_decide_eq_true h)

theorem recorded_seeded (seed : Nat) : (seeded seed : Workspace α).Recorded := by
  have hnone : ∀ t, (seeded seed : Workspace α).origin t = none := by
    intro t
    cases t <;> rfl
  constructor
  · intro t op h
    rw [hnone] at h
    cases h
  · intro t op h
    rw [hnone] at h
    cases h

theorem gradient_seeded (seed : Nat) (t : Tensor) :
    (seeded seed : Workspace α).gradient t = none := by
  cases t <;> rfl

/-- Nothing that is put on the tape has a gradient yet. -/
theorem gradient_record (hw : ∀ t, w.gradient t = none) (op : Operation α) (data : DenseArray α)
    (t : Tensor) : (Run.record op data w).2.gradient t = none := by
  refine (w.gradient_push _ t).trans ?_
  split
  · rfl
  · exact hw t

theorem gradient_leaf (hw : ∀ t, w.gradient t = none) (data : DenseArray α) (grad : Bool)
    (t : Tensor) : (Run.leaf data grad w).2.gradient t = none := by
  refine (w.gradient_push _ t).trans ?_
  split
  · rfl
  · exact hw t

theorem Recorded.push (hw : w.Recorded) {node : Node α}
    (hnode : ∀ op, node.origin = some op →
      node.requiresGrad = true ∧ ∀ u ∈ op.inputs, w.holds u = true) :
    ({ w with nodes := w.nodes.push node } : Workspace α).Recorded := by
  constructor
  · intro t op h
    rw [origin_push] at h
    split at h
    · rename_i ht
      intro u hu
      rw [ht]
      exact Nat.lt_succ_of_le (rank_le_of_holds ((hnode op h).2 u hu))
    · exact hw.earlier h
  · intro t op h
    rw [origin_push] at h
    rw [requiresGrad_push]
    split at h
    · rename_i ht
      rw [if_pos ht]
      exact (hnode op h).1
    · rename_i ht
      rw [if_neg ht]
      exact hw.wanted h

theorem recorded_leaf (hw : w.Recorded) (data : DenseArray α) (grad : Bool) :
    (Run.leaf data grad w).2.Recorded := by
  refine hw.push ?_
  intro op h
  cases h

theorem recorded_record (hw : w.Recorded) (op : Operation α) (data : DenseArray α)
    (h : ∀ u ∈ op.inputs, w.holds u = true) : (Run.record op data w).2.Recorded := by
  refine hw.push ?_
  intro op' hop
  obtain ⟨htracked, heq⟩ := Option.ite_none_right_eq_some.mp hop
  cases heq
  exact ⟨htracked, h⟩

end Workspace

end NeuralNet
