import Mathlib.Algebra.BigOperators.Group.List.Basic
import NeuralNet.Proofs.Tape.Accumulate

/-!
# What a sweep sends where

What is due to an array is what it has together with what the nodes that are still to pass their
gradients on will send it over all paths. A gradient that comes in is due wherever paths lead, and
passing it on changes nothing: what was due at the start of a sweep is there at its end.
-/

namespace NeuralNet

variable {α : Type}

section

variable [Scalar α]

namespace Workspace

/-- What a link makes of a gradient. -/
def send (w : Workspace α) (l : Link α) (g : DenseArray α) : Except Error (DenseArray α) :=
  l.op.pullback w.value l.position g

/-- What a path makes of a gradient, link by link. -/
def carry (w : Workspace α) (p : List (Link α)) (g : DenseArray α) : Except Error (DenseArray α) :=
  p.foldlM (fun g l => w.send l g) g

theorem SameTape.send {w w' : Workspace α} (h : w.SameTape w') : w'.send = w.send := by
  funext l g
  rw [Workspace.send, Workspace.send, funext h.value]

end Workspace

namespace Run

/-- Sends a gradient over links. -/
def sendAll (links : List (Link α)) (g : DenseArray α) : Run α Unit :=
  links.forM fun l => do addGradient l.target (← check ((← get).send l g))

variable {w : Workspace α} {op : Operation α} {g : DenseArray α} {id : Nat}

theorem passOn_of_gradient (hg : w.gradient (.node id) = some g)
    (hop : w.origin (.node id) = some op) : passOn id w = sendAll (w.links (.node id)) g w := by
  cases hnode : w.nodes[id]? with
  | none => simp [Workspace.origin, hnode] at hop
  | some n =>
    have hgrad : n.grad = some g := by simpa [Workspace.gradient, hnode] using hg
    have horigin : n.origin = some op := by simpa [Workspace.origin, hnode] using hop
    unfold passOn
    rw [bind_apply, get_apply]
    dsimp only
    rw [hnode]
    dsimp only
    rw [hgrad, horigin]
    dsimp only
    unfold Workspace.links
    rw [hop]
    dsimp only
    rw [sendAll, List.forM_eq_forM, List.forM_eq_forM, List.forM_map]
    rfl

theorem passOn_of_none (h : w.gradient (.node id) = none ∨ w.origin (.node id) = none) :
    passOn id w = (.ok (), w) := by
  unfold passOn
  rw [bind_apply, get_apply]
  dsimp only
  cases hnode : w.nodes[id]? with
  | none => rfl
  | some n =>
    simp only [Workspace.gradient, Workspace.origin, hnode, Option.bind_some] at h
    dsimp only
    rcases h with h | h
    · rw [h]
      rfl
    · rw [h]
      cases n.grad <;> rfl

end Run

end

variable [ExactScalar α] {w w' w'' : Workspace α} {s t u : Tensor} {op : Operation α}
  {l : Link α} {p : List (Link α)} {ls : List (Link α)} {a b g : DenseArray α} {id k : Nat}
  {ids : List Nat}

namespace Run

theorem sendAll_cons_ok_iff : sendAll (l :: ls) g w = (.ok (), w') ↔
    ∃ y w₁, w.send l g = .ok y ∧ addGradient l.target y w = (.ok (), w₁) ∧
      sendAll ls g w₁ = (.ok (), w') := by
  rw [sendAll, forM_cons_ok_iff]
  constructor
  · rintro ⟨w₁, hfirst, hrest⟩
    rw [bind_apply, get_apply] at hfirst
    obtain ⟨y, hsend, hadd⟩ := check_bind_ok_iff.mp hfirst
    exact ⟨y, w₁, hsend, hadd, hrest⟩
  · rintro ⟨y, w₁, hsend, hadd, hrest⟩
    refine ⟨w₁, ?_, hrest⟩
    rw [bind_apply, get_apply]
    exact check_bind_ok_iff.mpr ⟨y, hsend, hadd⟩

end Run

namespace Workspace

theorem carry_cons (w : Workspace α) (l : Link α) (p : List (Link α)) (g : DenseArray α) :
    w.carry (l :: p) g = w.send l g >>= w.carry p := rfl

theorem SameTape.carry (h : w.SameTape w') : w'.carry = w.carry := by
  funext p g
  rw [Workspace.carry, Workspace.carry, h.send]

theorem send_additive (w : Workspace α) (l : Link α) : Operation.Additive (w.send l) :=
  l.op.pullback_additive w.value l.position

theorem carry_additive (w : Workspace α) (p : List (Link α)) : Operation.Additive (w.carry p) := by
  induction p with
  | nil => exact .ok .id
  | cons l p ih => exact (w.send_additive l).bind ih

/-! ## What arrives -/

/-- An entry of what came out, 0 after a failure. -/
def entryOf (k : Nat) : Except Error (DenseArray α) → α
  | .ok g => g.entry k
  | .error _ => 0

theorem entryOf_sums {x y z : Except Error (DenseArray α)} (h : Operation.Sums x y z) (k : Nat) :
    entryOf k z = entryOf k x + entryOf k y := by
  cases h with
  | error e => exact (add_zero 0).symm
  | ok h => exact DenseArray.entry_plus h k

/-- An entry of what arrives over all paths. -/
def arriving (w : Workspace α) (t : Tensor) (k : Nat) (s : Tensor) (g : DenseArray α) : α :=
  ((w.paths s t).map fun p => entryOf k (w.carry p g)).sum

/-- The part of this that goes over a link. -/
def through (w : Workspace α) (t : Tensor) (k : Nat) (l : Link α) (g : DenseArray α) : α :=
  ((w.paths l.target t).map fun p => entryOf k (w.carry (l :: p) g)).sum

/-- The part of this that goes on to other arrays. -/
def onward (w : Workspace α) (t : Tensor) (k : Nat) (s : Tensor) (g : DenseArray α) : α :=
  ((w.links s).map fun l => w.through t k l g).sum

theorem Recorded.arriving_eq (hw : w.Recorded) (t : Tensor) (k : Nat) (s : Tensor)
    (g : DenseArray α) :
    w.arriving t k s g = (if s = t then g.entry k else 0) + w.onward t k s g := by
  rw [arriving, hw.paths_eq, List.map_append, List.sum_append]
  congr 1
  · split
    · exact add_zero _
    · rfl
  · rw [List.map_flatMap, List.flatMap, List.sum_flatten, onward, List.map_map]
    simp only [Function.comp_def, List.map_map, through]

theorem through_of_send {y : DenseArray α} (h : w.send l g = .ok y) :
    w.through t k l g = w.arriving t k l.target y := by
  simp only [through, arriving, carry_cons, h]
  rfl

theorem through_plus (w : Workspace α) (t : Tensor) (k : Nat) (l : Link α)
    (h : a.extents = b.extents) :
    w.through t k l (a.plus b) = w.through t k l a + w.through t k l b := by
  rw [through, through, through, ← List.sum_map_add]
  congr 2
  funext p
  exact entryOf_sums ((w.carry_additive (l :: p)).sums h) k

theorem onward_plus (w : Workspace α) (t : Tensor) (k : Nat) (s : Tensor)
    (h : a.extents = b.extents) :
    w.onward t k s (a.plus b) = w.onward t k s a + w.onward t k s b := by
  simp only [onward, through_plus w t k _ h, List.sum_map_add]

theorem onward_of_origin_none (h : w.origin s = none) : w.onward t k s g = 0 := by
  rw [onward, links, h]
  rfl

theorem SameTape.through (h : w.SameTape w') (hw : w.Recorded) : w'.through = w.through := by
  funext t k l g
  rw [Workspace.through, Workspace.through, h.paths hw, h.carry]

theorem SameTape.onward (h : w.SameTape w') (hw : w.Recorded) : w'.onward = w.onward := by
  funext t k s g
  rw [Workspace.onward, Workspace.onward, h.links, h.through hw]

theorem SameTape.arriving (h : w.SameTape w') (hw : w.Recorded) : w'.arriving = w.arriving := by
  funext t k s g
  rw [Workspace.arriving, Workspace.arriving, h.paths hw, h.carry]

/-! ## What is due -/

/-- An entry of the gradient that an array has. -/
def amount (w : Workspace α) (t : Tensor) (k : Nat) : α := (w.gradient t).elim 0 (·.entry k)

/-- An entry of what a node will send on. -/
def pending (w : Workspace α) (t : Tensor) (k : Nat) (id : Nat) : α :=
  (w.gradient (.node id)).elim 0 (w.onward t k (.node id))

/-- An entry of what is due to an array while some nodes are still to pass their gradients on. -/
def due (w : Workspace α) (ids : List Nat) (t : Tensor) (k : Nat) : α :=
  w.amount t k + (ids.map (w.pending t k)).sum

/-- What is added to a gradient is added to every entry. -/
theorem Received.amount (h : w.Received w' u g) (hfits : w.Fits) (ht : w.requiresGrad t = true)
    (k : Nat) : w'.amount t k = w.amount t k + if u = t then g.entry k else 0 := by
  unfold Workspace.amount
  split
  · rename_i hut
    subst hut
    rw [h.added ht]
    cases hold : w.gradient u with
    | none => simp
    | some old =>
      have hextents : old.extents = g.extents := (hfits u old hold).trans (h.extents ht).symm
      exact DenseArray.entry_plus hextents k
  · rename_i hut
    rw [h.other (Ne.symm hut), add_zero]

theorem Received.pending (h : w.Received w' u g) (hw : w.Recorded) (hfits : w.Fits) (t : Tensor)
    (k id : Nat) : w'.pending t k id =
      w.pending t k id + if u = .node id then w.onward t k u g else 0 := by
  unfold Workspace.pending
  rw [h.sameTape.onward hw]
  split
  · rename_i hu
    subst hu
    cases hwants : w.requiresGrad (.node id) with
    | false =>
      -- what wants no gradient was not recorded either
      have horigin : w.origin (.node id) = none := by
        by_contra hne
        obtain ⟨op, hop⟩ := Option.ne_none_iff_exists'.mp hne
        rw [hw.wanted hop] at hwants
        cases hwants
      rw [h.ignored hwants, onward_of_origin_none horigin, add_zero]
    | true =>
      rw [h.added hwants]
      cases hold : w.gradient (.node id) with
      | none => simp
      | some old =>
        have hextents : old.extents = g.extents := (hfits _ old hold).trans (h.extents hwants).symm
        exact w.onward_plus t k _ hextents
  · rename_i hu
    rw [h.other (Ne.symm hu), add_zero]

/-- A gradient that comes in is due wherever paths lead. -/
theorem Received.due (h : w.Received w' u g) (hw : w.Recorded) (hfits : w.Fits) (hids : ids.Nodup)
    (hu : ∀ id op, u = .node id → w.origin u = some op → id ∈ ids) (ht : w.requiresGrad t = true)
    (k : Nat) : w'.due ids t k = w.due ids t k + w.arriving t k u g := by
  have honward : (ids.map fun id => if u = .node id then w.onward t k u g else 0).sum =
      w.onward t k u g := by
    cases hop : w.origin u with
    | none =>
      rw [onward_of_origin_none hop]
      simp
    | some op =>
      cases u with
      | weight slot => cases hop
      | node n =>
        rw [List.sum_map_eq_nsmul_single n _ ?_, List.count_eq_one_of_mem hids (hu n op rfl hop),
          one_nsmul, if_pos rfl]
        intro m hm _
        exact if_neg fun h => hm (Tensor.node.inj h).symm
  have hpending : w'.pending t k = fun id =>
      w.pending t k id + if u = .node id then w.onward t k u g else 0 :=
    funext fun id => h.pending hw hfits t k id
  rw [Workspace.due, h.amount hfits ht, hpending, List.sum_map_add, honward, hw.arriving_eq,
    Workspace.due]
  ring

/-- Nodes without a gradient have nothing to send. -/
theorem due_of_none (h : ∀ id ∈ ids, w.gradient (.node id) = none) (t : Tensor) (k : Nat) :
    w.due ids t k = w.amount t k := by
  have hpending : ids.map (w.pending t k) = ids.map fun _ => 0 := by
    refine List.map_congr_left ?_
    intro id hid
    rw [pending, h id hid]
    rfl
  rw [due, hpending]
  simp

end Workspace

/-! ## Passing on -/

open Workspace

namespace Run

theorem grown_sendAll (h : sendAll ls g w = (.ok (), w')) : w.Grown w' := by
  induction ls generalizing w with
  | nil =>
    cases h
    exact .refl _
  | cons l ls ih =>
    obtain ⟨y, w₁, -, hadd, hrest⟩ := sendAll_cons_ok_iff.mp h
    exact (received_of_addGradient hadd).grown.trans (ih hrest)

/-- A node passes on what it has, or nothing. -/
theorem passOn_cases (h : passOn id w = (.ok (), w')) :
    (∃ g op, w.gradient (.node id) = some g ∧ w.origin (.node id) = some op ∧
      sendAll (w.links (.node id)) g w = (.ok (), w')) ∨
    ((w.gradient (.node id) = none ∨ w.origin (.node id) = none) ∧ w' = w) := by
  cases hg : w.gradient (.node id) with
  | none =>
    rw [passOn_of_none (.inl hg)] at h
    cases h
    exact .inr ⟨.inl rfl, rfl⟩
  | some g =>
    cases hop : w.origin (.node id) with
    | none =>
      rw [passOn_of_none (.inr hop)] at h
      cases h
      exact .inr ⟨.inr rfl, rfl⟩
    | some op =>
      rw [passOn_of_gradient hg hop] at h
      exact .inl ⟨g, op, rfl, rfl, h⟩

theorem grown_passOn (h : passOn id w = (.ok (), w')) : w.Grown w' := by
  rcases passOn_cases h with ⟨g, op, -, -, hsend⟩ | ⟨-, rfl⟩
  · exact grown_sendAll hsend
  · exact .refl w'

theorem grown_sweep (h : ids.forM passOn w = (.ok (), w')) : w.Grown w' := by
  induction ids generalizing w with
  | nil =>
    cases h
    exact .refl _
  | cons id ids ih =>
    obtain ⟨w₁, hfirst, hrest⟩ := forM_cons_ok_iff.mp h
    exact (grown_passOn hfirst).trans (ih hrest)

theorem due_sendAll (hw : w.Recorded) (hfits : w.Fits) (hids : ids.Nodup)
    (hls : ∀ l ∈ ls, ∀ n op, l.target = .node n → w.origin l.target = some op → n ∈ ids)
    (ht : w.requiresGrad t = true) (k : Nat) (h : sendAll ls g w = (.ok (), w')) :
    w'.due ids t k = w.due ids t k + (ls.map fun l => w.through t k l g).sum := by
  induction ls generalizing w with
  | nil =>
    cases h
    simp
  | cons l ls ih =>
    obtain ⟨y, w₁, hsend, hadd, hrest⟩ := sendAll_cons_ok_iff.mp h
    obtain ⟨hl, hls⟩ := List.forall_mem_cons.mp hls
    have hreceived := received_of_addGradient hadd
    have hsame := hreceived.sameTape
    have hfirst := hreceived.due hw hfits hids hl ht k
    have hrest := ih (hsame.recorded hw) (hreceived.fits hfits) ?_ ?_ hrest
    · rw [hrest, hfirst, hsame.through hw, List.map_cons, List.sum_cons, through_of_send hsend,
        add_assoc]
    · intro l hl n op hn hop
      rw [hsame.origin] at hop
      exact hls l hl n op hn hop
    · rw [hsame.requiresGrad]
      exact ht

/-- When a node has passed its gradient on, it is no longer to come, and all else is as before. -/
theorem due_passOn (hw : w.Recorded) (hfits : w.Fits) (hids : w.Topological (id :: ids))
    (ht : w.requiresGrad t = true) (k : Nat) (h : passOn id w = (.ok (), w')) :
    w'.due ids t k = w.due (id :: ids) t k := by
  have hcons : w.due (id :: ids) t k = w.due ids t k + w.pending t k id := by
    rw [due, due, List.map_cons, List.sum_cons]
    ring
  rcases passOn_cases h with ⟨g, op, hg, -, hsend⟩ | ⟨hnone, rfl⟩
  · rw [hcons, due_sendAll hw hfits hids.2.2.nodup ?_ ht k hsend, pending, hg]
    · rfl
    · intro l hl n op hn _
      exact hids.2.1 n (hw.mem_sources.mpr ⟨l, hl, hn⟩)
  · have hpending : w'.pending t k id = 0 := by
      rcases hnone with hg | hop
      · rw [pending, hg]
        rfl
      · rw [pending]
        cases w'.gradient (.node id) with
        | none => rfl
        | some g => exact onward_of_origin_none hop
    rw [hcons, hpending, add_zero]

/-- At the end of a sweep there is what was due at its start. -/
theorem amount_sweep (hw : w.Recorded) (hfits : w.Fits) (hids : w.Topological ids)
    (ht : w.requiresGrad t = true) (k : Nat) (h : ids.forM passOn w = (.ok (), w')) :
    w'.amount t k = w.due ids t k := by
  induction ids generalizing w with
  | nil =>
    cases h
    rw [due, List.map_nil, List.sum_nil, add_zero]
  | cons id ids ih =>
    obtain ⟨w₁, hfirst, hrest⟩ := forM_cons_ok_iff.mp h
    have hgrown := grown_passOn hfirst
    have hsame := hgrown.sameTape
    rw [← due_passOn hw hfits hids ht k hfirst]
    refine ih (hsame.recorded hw) (hgrown.fits hfits) (hsame.topological hids.2.2) ?_ hrest
    rw [hsame.requiresGrad]
    exact ht

theorem backward_ok_iff {root : Tensor} : backward root w = (.ok (), w') ↔
    ∃ w₁, addGradient root (.ones (w.value root).extents) w = (.ok (), w₁) ∧
      (w.order root).forM passOn w₁ = (.ok (), w') := by
  unfold backward
  rw [bind_apply, get_apply]
  constructor
  · intro h
    obtain ⟨⟨⟩, w₁, hseed, hsweep⟩ := bind_ok_iff.mp h
    exact ⟨w₁, hseed, hsweep⟩
  · rintro ⟨w₁, hseed, hsweep⟩
    exact bind_ok_iff.mpr ⟨(), w₁, hseed, hsweep⟩

/-- After a call there is what was due before it, and what ones at the root send over all paths. -/
theorem amount_backward {root : Tensor} (hw : w.Recorded) (hfits : w.Fits)
    (ht : w.requiresGrad t = true) (k : Nat) (h : backward root w = (.ok (), w')) :
    w'.amount t k = w.due (w.order root) t k +
      w.arriving t k root (.ones (w.value root).extents) := by
  obtain ⟨w₁, hseed, hsweep⟩ := backward_ok_iff.mp h
  have hreceived := received_of_addGradient hseed
  have hsame := hreceived.sameTape
  have htopological := w.topological_order root
  rw [← hreceived.due hw hfits htopological.nodup ?_ ht k]
  · refine amount_sweep (hsame.recorded hw) (hreceived.fits hfits) (hsame.topological htopological)
      ?_ k hsweep
    rw [hsame.requiresGrad]
    exact ht
  · rintro id op rfl -
    exact mem_order.mpr .refl

end Run

end NeuralNet
