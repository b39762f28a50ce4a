import Mathlib.Algebra.BigOperators.Group.Finset.Piecewise
import NeuralNet.Proofs.Tape.Turns

/-!
# What is added to the gradients

The amounts that a node adds to the gradients of its inputs when it passes its own on, place by
place, and what nodes add that are passed one after the other.
-/

namespace NeuralNet

open Finset (range)

/-- A sum over a list with places is one over the places. -/
theorem sum_map_zipIdx {α β : Type} [AddCommMonoid α] (l : List β) (f : β × Nat → α) :
    (l.zipIdx.map f).sum = ∑ p ∈ range l.length, (l[p]?.map fun b => f (b, p)).getD 0 := by
  induction l using List.reverseRecOn with
  | nil => rfl
  | append_singleton l b ih =>
    have hlast : (l ++ [b])[l.length]? = some b := by simp
    rw [List.zipIdx_append, List.map_append, List.sum_append, ih, List.length_append,
      List.length_singleton, Finset.sum_range_succ, hlast]
    congr 1
    · apply Finset.sum_congr rfl
      intro p hp
      rw [List.getElem?_append_left (Finset.mem_range.mp hp)]
    · simp

namespace Run

open Workspace

variable {α : Type} [ExactScalar α] {u u' : Workspace α} {t : Tensor} {op : Operation α}
  {g : DenseArray α} {ls : List (Link α)} {id : Nat} {ids : List Nat}

/-- Gradients that are sent add up. -/
theorem amount_sendAll {D : Link α → DenseArray α} (hfits : u.Fits)
    (hD : ∀ l ∈ ls, u.send l g = .ok (D l)) (ht : u.requiresGrad t = true)
    (h : sendAll ls g u = (.ok (), u')) (k : Nat) :
    u'.amount t k =
      u.amount t k + (ls.map fun l => if l.target = t then (D l).entry k else 0).sum := by
  induction ls generalizing u with
  | nil =>
    cases h
    exact (add_zero _).symm
  | cons l ls ih =>
    obtain ⟨d, u₁, hsend, hadd, hrest⟩ := sendAll_cons_ok_iff.mp h
    obtain ⟨hl, hls⟩ := List.forall_mem_cons.mp hD
    cases hl.symm.trans hsend
    have hreceived := received_of_addGradient hadd
    have hsame := hreceived.sameTape
    rw [ih (hreceived.fits hfits) (by rwa [hsame.send]) (by rwa [hsame.requiresGrad]) hrest,
      hreceived.amount hfits ht, List.map_cons, List.sum_cons, add_assoc]

/-- What a node adds to the gradients. -/
structure Adds (u u' : Workspace α) (touched : Tensor → Prop) (E : Tensor → Nat → α) : Prop where
  grown : u.Grown u'
  other : ∀ t, ¬touched t → u'.gradient t = u.gradient t
  amount : ∀ t, u.requiresGrad t = true → ∀ k, u'.amount t k = u.amount t k + E t k

/-- A node that has its gradient adds what it makes of it for every place of an input. -/
theorem exists_adds {D : Nat → DenseArray α} (hfits : u.Fits) (hg : u.gradient (.node id) = some g)
    (hop : u.origin (.node id) = some op)
    (hD : ∀ p t, op.inputs[p]? = some t →
      op.pullback u.value p g = .ok (D p) ∧ (D p).extents = (u.value t).extents) :
    ∃ u', passOn id u = (.ok (), u') ∧ Adds u u' (· ∈ op.inputs) fun t k =>
      ∑ p ∈ range op.inputs.length with op.inputs[p]? = some t, (D p).entry k := by
  have hlinks : u.links (.node id) = op.inputs.zipIdx.map fun q => ⟨op, q.2, q.1⟩ := by
    rw [links, hop]
  have hsent : ∀ l ∈ u.links (.node id), u.send l g = .ok (D l.position) ∧
      (D l.position).extents = (u.value l.target).extents ∧ l.target ∈ op.inputs := by
    intro l hl
    rw [hlinks] at hl
    obtain ⟨⟨t, p⟩, hmem, rfl⟩ := List.mem_map.mp hl
    have hp := List.mk_mem_zipIdx_iff_getElem?.mp hmem
    obtain ⟨hpull, hextents⟩ := hD p t hp
    exact ⟨hpull, hextents, List.mem_of_getElem? hp⟩
  obtain ⟨u', hrun⟩ := exists_sendAll fun l hl =>
    ⟨_, (hsent l hl).1, fun _ => (hsent l hl).2.1⟩
  refine ⟨u', ?_, grown_sendAll hrun, fun t ht => ?_, fun t ht k => ?_⟩
  · rw [passOn_of_gradient hg hop, hrun]
  · exact gradient_sendAll_of_ne (fun l hl heq => ht (heq ▸ (hsent l hl).2.2)) hrun
  · rw [amount_sendAll hfits (D := fun l => D l.position) (fun l hl => (hsent l hl).1) ht hrun,
      hlinks, List.map_map, sum_map_zipIdx, Finset.sum_filter]
    congr 1
    apply Finset.sum_congr rfl
    intro p hp
    rw [List.getElem?_eq_getElem (Finset.mem_range.mp hp), Option.map_some, Option.getD_some]
    simp only [Function.comp_apply, Option.some.injEq]

/-- What a node makes for the places of its inputs, whatever is known of it. -/
theorem exists_adds_of_pullback {P : Nat → Tensor → DenseArray α → Prop} (hfits : u.Fits)
    (hg : u.gradient (.node id) = some g) (hop : u.origin (.node id) = some op)
    (h : ∀ p t, op.inputs[p]? = some t → ∃ d, op.pullback u.value p g = .ok d ∧
      d.extents = (u.value t).extents ∧ P p t d) :
    ∃ (D : Nat → DenseArray α) (u' : Workspace α), passOn id u = (.ok (), u') ∧
      (Adds u u' (· ∈ op.inputs) fun t k =>
        ∑ p ∈ range op.inputs.length with op.inputs[p]? = some t, (D p).entry k) ∧
      ∀ p t, op.inputs[p]? = some t → P p t (D p) := by
  let D p := (op.pullback u.value p g).toOption.getD default
  have hD : ∀ p t, op.inputs[p]? = some t → op.pullback u.value p g = .ok (D p) ∧
      (D p).extents = (u.value t).extents ∧ P p t (D p) := by
    intro p t hp
    obtain ⟨d, hd, hrest⟩ := h p t hp
    have hDp : D p = d := by simp only [D, hd]; rfl
    rw [hDp]
    exact ⟨hd, hrest⟩
  obtain ⟨u', hrun, hadds⟩ := exists_adds hfits hg hop fun p t hp =>
    ⟨(hD p t hp).1, (hD p t hp).2.1⟩
  exact ⟨D, u', hrun, hadds, fun p t hp => (hD p t hp).2.2⟩

theorem Adds.mono {touched touched' : Tensor → Prop} {E E' : Tensor → Nat → α}
    (h : Adds u u' touched E) (htouched : ∀ t, touched t → touched' t)
    (hE : ∀ t, u.requiresGrad t = true → ∀ k, E t k = E' t k) : Adds u u' touched' E' :=
  ⟨h.grown, fun t ht => h.other t fun htouch => ht (htouched t htouch),
    fun t ht k => hE t ht k ▸ h.amount t ht k⟩

theorem Adds.trans {u'' : Workspace α} {touched touched' : Tensor → Prop}
    {E E' : Tensor → Nat → α} (h : Adds u u' touched E) (h' : Adds u' u'' touched' E') :
    Adds u u'' (fun t => touched t ∨ touched' t) fun t k => E t k + E' t k := by
  refine ⟨h.grown.trans h'.grown, fun t ht => ?_, fun t ht k => ?_⟩
  · rw [h'.other t fun htouch => ht (.inr htouch), h.other t fun htouch => ht (.inl htouch)]
  · rw [h'.amount t (by rwa [h.grown.sameTape.requiresGrad]), h.amount t ht, add_assoc]

theorem Adds.refl (u : Workspace α) (touched : Tensor → Prop) :
    Adds u u touched fun _ _ => 0 :=
  ⟨.refl u, fun _ _ => rfl, fun _ _ _ => (add_zero _).symm⟩

/-- Nodes of which none gets anything from another add what each of them does. -/
theorem exists_adds_sweep {touched : Tensor → Prop} {E : Nat → Tensor → Nat → α}
    (hfits : u.Fits) (hids : ∀ id ∈ ids, ¬touched (.node id))
    (h : ∀ id ∈ ids, ∀ v, u.SameTape v → v.Fits → v.gradient (.node id) = u.gradient (.node id) →
      ∃ v', passOn id v = (.ok (), v') ∧ Adds v v' touched (E id)) :
    ∃ u', ids.forM passOn u = (.ok (), u') ∧
      Adds u u' touched fun t k => (ids.map fun id => E id t k).sum := by
  induction ids generalizing u with
  | nil => exact ⟨u, rfl, .refl u touched⟩
  | cons id ids ih =>
    obtain ⟨hid, hids⟩ := List.forall_mem_cons.mp hids
    obtain ⟨u₁, hfirst, hadds⟩ := h id List.mem_cons_self u (.refl u) hfits rfl
    have hsame := hadds.grown.sameTape
    obtain ⟨u', hrest, hadds'⟩ := ih (u := u₁) (hadds.grown.fits hfits) hids
      fun n hn v hv hvfits hvg => h n (List.mem_cons_of_mem _ hn) v (hsame.trans hv) hvfits
        (hvg.trans (hadds.other _ (hids n hn)))
    exact ⟨u', forM_cons_ok_iff.mpr ⟨u₁, hfirst, hrest⟩,
      (hadds.trans hadds').mono (fun t ht => or_self_iff.mp ht) fun t _ k => rfl⟩

end Run

end NeuralNet
