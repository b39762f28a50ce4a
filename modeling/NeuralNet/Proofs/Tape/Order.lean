import Mathlib.Logic.Relation
import NeuralNet.Tape.Backward

/-!
# The order of the sweep

The nodes behind the root are listed so that each stands before everything it was computed from:

* `topological_order`: no node is listed twice, and what a listed node was computed from is listed
  behind it;
* `mem_order`: the nodes that the root was computed from are listed, and no others.
-/

namespace NeuralNet

open Relation (ReflTransGen)

namespace Workspace

variable {α : Type} {w : Workspace α} {id n : Nat} {ids done : List Nat}

/-- A list of nodes, each once and before all nodes that it was computed from. -/
def Topological (w : Workspace α) : List Nat → Prop
  | [] => True
  | id :: rest => id ∉ rest ∧ (∀ s ∈ w.sources id, s ∈ rest) ∧ w.Topological rest

/-- A node that another one was computed from, directly or not, or the node itself. -/
def Behind (w : Workspace α) : Nat → Nat → Prop := ReflTransGen fun id s => s ∈ w.sources id

theorem Behind.le (h : w.Behind id n) : n ≤ id := by
  induction h with
  | refl => exact Nat.le_refl id
  | tail _ hs ih => exact Nat.le_trans (Nat.le_of_lt (lt_of_mem_sources hs)) ih

namespace Topological

theorem nodup (h : w.Topological ids) : ids.Nodup := by
  induction ids with
  | nil => exact .nil
  | cons id rest ih =>
    obtain ⟨hnew, -, hrest⟩ := h
    exact List.nodup_cons.mpr ⟨hnew, ih hrest⟩

theorem of_append {before : List Nat} (h : w.Topological (before ++ ids)) : w.Topological ids := by
  induction before with
  | nil => exact h
  | cons id before ih => exact ih h.2.2

theorem source_mem (h : w.Topological ids) (hid : id ∈ ids) (hn : n ∈ w.sources id) : n ∈ ids := by
  induction ids with
  | nil => cases hid
  | cons m rest ih =>
    obtain ⟨-, hsources, hrest⟩ := h
    rcases List.mem_cons.mp hid with rfl | hid
    · exact List.mem_cons_of_mem _ (hsources n hn)
    · exact List.mem_cons_of_mem _ (ih hrest hid)

theorem behind_mem (h : w.Topological ids) (hid : id ∈ ids) (hn : w.Behind id n) : n ∈ ids := by
  induction hn with
  | refl => exact hid
  | tail _ hs ih => exact h.source_mem ih hs

/-- What was computed from a node stands before it. -/
theorem mem_before {before after : List Nat} (h : w.Topological (before ++ id :: after))
    (hn : n ∈ before ++ id :: after) (hid : id ∈ w.sources n) : n ∈ before := by
  have hnodup : (before ++ id :: after).Nodup := h.nodup
  have hafter : w.Topological (id :: after) := h.of_append
  rcases List.mem_append.mp hn with hbefore | hrest
  · exact hbefore
  · rcases List.mem_cons.mp hrest with rfl | hmem
    · exact absurd (lt_of_mem_sources hid) (Nat.lt_irrefl n)
    · exact absurd (hafter.2.2.source_mem hmem hid) hafter.1

end Topological

/-- What visiting some nodes one after another does to the list of those that are done. -/
structure Extended (w : Workspace α) (ids done done' : List Nat) : Prop where
  topological : w.Topological done'
  subset : done ⊆ done'
  mem : ∀ id ∈ ids, id ∈ done'
  only : ∀ n ∈ done', n ∈ done ∨ ∃ id ∈ ids, w.Behind id n

theorem Extended.foldl {visit : List Nat → Nat → List Nat}
    (hvisit : ∀ id ∈ ids, ∀ done, w.Topological done → w.Extended [id] done (visit done id))
    (h : w.Topological done) : w.Extended ids done (ids.foldl visit done) := by
  induction ids generalizing done with
  | nil =>
    refine ⟨h, fun n hn => hn, ?_, fun n hn => .inl hn⟩
    intro n hn
    cases hn
  | cons id ids ih =>
    have hfirst := hvisit id List.mem_cons_self done h
    have hrest := ih (fun i hi => hvisit i (List.mem_cons_of_mem _ hi)) hfirst.topological
    refine ⟨hrest.topological, ?_, ?_, ?_⟩
    · intro n hn
      exact hrest.subset (hfirst.subset hn)
    · intro n hn
      rcases List.mem_cons.mp hn with rfl | hn
      · exact hrest.subset (hfirst.mem n (List.mem_singleton_self n))
      · exact hrest.mem n hn
    · intro n hn
      rcases hrest.only n hn with hn | ⟨i, hi, hbehind⟩
      · rcases hfirst.only n hn with hn | ⟨i, hi, hbehind⟩
        · exact .inl hn
        · exact .inr ⟨i, List.mem_cons.mpr (.inl (List.mem_singleton.mp hi)), hbehind⟩
      · exact .inr ⟨i, List.mem_cons_of_mem _ hi, hbehind⟩

/-- A node is put before everything that it was computed from, which is visited first. -/
theorem extended_visit (id : Nat) (h : w.Topological done) :
    w.Extended [id] done (w.visit id done) := by
  induction id using Nat.strongRecOn generalizing done with
  | ind id ih =>
    rw [visit]
    by_cases hdone : id ∈ done
    · rw [if_pos hdone]
      refine ⟨h, fun _ hn => hn, ?_, fun _ hn => .inl hn⟩
      intro n hn
      rwa [List.mem_singleton.mp hn]
    · have hall : w.Extended (w.sources id) done
          ((w.sources id).foldl (fun done s => w.visit s done) done) :=
        Extended.foldl (fun s hs done h => ih s (lt_of_mem_sources hs) h) h
      rw [if_neg hdone, List.foldl_attach (f := fun done s => w.visit s done)]
      have hnew : id ∉ (w.sources id).foldl (fun done s => w.visit s done) done := by
        intro hid
        rcases hall.only id hid with hid | ⟨s, hs, hbehind⟩
        · exact hdone hid
        · exact Nat.not_lt.mpr hbehind.le (lt_of_mem_sources hs)
      refine ⟨⟨hnew, hall.mem, hall.topological⟩, ?_, ?_, ?_⟩
      · intro n hn
        exact List.mem_cons_of_mem _ (hall.subset hn)
      · intro n hn
        rw [List.mem_singleton.mp hn]
        exact List.mem_cons_self
      · intro n hn
        rcases List.mem_cons.mp hn with rfl | hn
        · exact .inr ⟨n, List.mem_singleton_self n, .refl⟩
        · rcases hall.only n hn with hn | ⟨s, hs, hbehind⟩
          · exact .inl hn
          · exact .inr ⟨id, List.mem_singleton_self id, .head hs hbehind⟩

theorem extended_order (w : Workspace α) (id : Nat) : w.Extended [id] [] (w.order (.node id)) :=
  extended_visit id trivial

theorem topological_order (w : Workspace α) (root : Tensor) : w.Topological (w.order root) := by
  cases root with
  | weight slot => trivial
  | node id => exact (w.extended_order id).topological

theorem mem_order : n ∈ w.order (.node id) ↔ w.Behind id n := by
  have h := w.extended_order id
  constructor
  · intro hn
    rcases h.only n hn with hn | ⟨i, hi, hbehind⟩
    · cases hn
    · rwa [List.mem_singleton.mp hi] at hbehind
  · intro hn
    exact h.topological.behind_mem (h.mem id (List.mem_singleton_self id)) hn

end Workspace

end NeuralNet
