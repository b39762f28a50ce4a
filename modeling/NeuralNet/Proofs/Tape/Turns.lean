import NeuralNet.Proofs.Tape.Sweep

/-!
# Every operation has its turn

* `Live`: a recorded node of the sweep has its gradient, or a node with its turn still to come will
  send it one. So at its own turn it has one, and its operation is called;
* `Passes`: whether the operation of a node can be called depends on extents only, so where it was
  called once it can always be called.
-/

namespace NeuralNet

open Workspace

variable {α : Type} [ExactScalar α] {w w' w₁ : Workspace α} {s t u : Tensor} {op : Operation α}
  {l : Link α} {p : List (Link α)} {ls : List (Link α)} {g : DenseArray α} {id : Nat}
  {ids before rest : List Nat}

namespace Workspace

/-- Each recorded node has its gradient, or is still to get it from one of the others. -/
def Live (w : Workspace α) (ids : List Nat) : Prop :=
  ∀ id ∈ ids, ∀ op, w.origin (.node id) = some op →
    (w.gradient (.node id)).isSome = true ∨ ∃ n ∈ ids, id ∈ w.sources n

/-- The operation of a node can be called on a gradient that fits, and what it gives its inputs fits
them. -/
def Passes (w : Workspace α) (id : Nat) : Prop :=
  ∀ l ∈ w.links (.node id), ∀ g : DenseArray α, g.extents = (w.value (.node id)).extents →
    ∃ y, w.send l g = .ok y ∧
      (w.requiresGrad l.target = true → y.extents = (w.value l.target).extents)

theorem SameTape.passes (h : w.SameTape w') (hid : w.Passes id) : w'.Passes id := by
  unfold Passes
  simp only [h.links, h.send, h.value, h.requiresGrad]
  exact hid

end Workspace

namespace Run

/-! ## What is sent where -/

theorem gradient_sendAll_of_ne (hls : ∀ l ∈ ls, l.target ≠ u)
    (h : sendAll ls g w = (.ok (), w')) : w'.gradient u = w.gradient u := by
  induction ls generalizing w with
  | nil =>
    cases h
    rfl
  | cons l ls ih =>
    obtain ⟨y, w₁, -, hadd, hrest⟩ := sendAll_cons_ok_iff.mp h
    obtain ⟨hl, hls⟩ := List.forall_mem_cons.mp hls
    rw [ih hls hrest, (received_of_addGradient hadd).other (Ne.symm hl)]

/-- Only what a link of a swept node leads to gets a gradient. -/
theorem gradient_sweep_of_ne (hids : ∀ id ∈ ids, ∀ l ∈ w.links (.node id), l.target ≠ u)
    (h : ids.forM passOn w = (.ok (), w')) : w'.gradient u = w.gradient u := by
  induction ids generalizing w with
  | nil =>
    cases h
    rfl
  | cons id ids ih =>
    obtain ⟨w₁, hfirst, hrest⟩ := forM_cons_ok_iff.mp h
    obtain ⟨hid, hids⟩ := List.forall_mem_cons.mp hids
    have hsame := (grown_passOn hfirst).sameTape
    have hrest := ih (by simpa only [hsame.links] using hids) hrest
    rcases passOn_cases hfirst with ⟨g, op, -, -, hsend⟩ | ⟨-, rfl⟩
    · rw [hrest, gradient_sendAll_of_ne hid hsend]
    · exact hrest

theorem isSome_sendAll (hl : l ∈ ls) (hwants : w.requiresGrad l.target = true)
    (h : sendAll ls g w = (.ok (), w')) : (w'.gradient l.target).isSome = true := by
  induction ls generalizing w with
  | nil => cases hl
  | cons m ls ih =>
    obtain ⟨y, w₁, -, hadd, hrest⟩ := sendAll_cons_ok_iff.mp h
    have hreceived := received_of_addGradient hadd
    rcases List.mem_cons.mp hl with rfl | hl
    · apply (grown_sendAll hrest).isSome
      rw [hreceived.added hwants, Option.isSome_some]
    · refine ih hl ?_ hrest
      rw [hreceived.sameTape.requiresGrad]
      exact hwants

/-! ## Turns -/

omit [ExactScalar α] in
/-- The next node has nothing left to wait for. -/
theorem live_head (h : w.Live (id :: ids)) (hids : w.Topological (id :: ids))
    (hop : w.origin (.node id) = some op) : (w.gradient (.node id)).isSome = true := by
  rcases h id List.mem_cons_self op hop with hsome | ⟨n, hn, hsource⟩
  · exact hsome
  · have hbefore : n ∈ ([] : List Nat) := Topological.mem_before hids hn hsource
    cases hbefore

theorem live_passOn (hw : w.Recorded) (h : w.Live (id :: ids)) (hids : w.Topological (id :: ids))
    (hrun : passOn id w = (.ok (), w')) : w'.Live ids := by
  have hgrown := grown_passOn hrun
  have hsame := hgrown.sameTape
  intro n hn op hop
  rw [hsame.origin] at hop
  simp only [hsame.sources]
  rcases h n (List.mem_cons_of_mem _ hn) op hop with hsome | ⟨m, hm, hsource⟩
  · exact .inl (hgrown.isSome hsome)
  · rcases List.mem_cons.mp hm with rfl | hm
    · obtain ⟨l, hl, htarget⟩ := hw.mem_sources.mp hsource
      have hlive := live_head h hids (origin_of_mem_links hl)
      rcases passOn_cases hrun with ⟨g, op', -, -, hsend⟩ | ⟨hnone | hnone, -⟩
      · left
        rw [← htarget]
        refine isSome_sendAll hl ?_ hsend
        rw [htarget]
        exact hw.wanted hop
      · rw [hnone] at hlive
        cases hlive
      · rw [origin_of_mem_links hl] at hnone
        cases hnone
    · exact .inr ⟨m, hm, hsource⟩

theorem live_sweep (hw : w.Recorded) (h : w.Live (before ++ ids))
    (hids : w.Topological (before ++ ids)) (hrun : before.forM Run.passOn w = (.ok (), w')) :
    w'.Live ids := by
  induction before generalizing w with
  | nil =>
    cases hrun
    exact h
  | cons id before ih =>
    obtain ⟨w₁, hfirst, hrest⟩ := forM_cons_ok_iff.mp hrun
    have hsame := (grown_passOn hfirst).sameTape
    exact ih (hsame.recorded hw) (live_passOn hw h hids hfirst) (hsame.topological hids.2.2) hrest

/-! ## Calls that succeed -/

theorem sends_of_sendAll (h : sendAll ls g w = (.ok (), w')) :
    ∀ l ∈ ls, ∃ y, w.send l g = .ok y ∧
      (w.requiresGrad l.target = true → y.extents = (w.value l.target).extents) := by
  induction ls generalizing w with
  | nil =>
    intro l hl
    cases hl
  | cons m ls ih =>
    obtain ⟨y, w₁, hsend, hadd, hrest⟩ := sendAll_cons_ok_iff.mp h
    have hreceived := received_of_addGradient hadd
    have hsame := hreceived.sameTape
    intro l hl
    rcases List.mem_cons.mp hl with rfl | hl
    · exact ⟨y, hsend, hreceived.extents⟩
    · simpa only [hsame.send, hsame.value, hsame.requiresGrad] using ih hrest l hl

theorem exists_sendAll (hls : ∀ l ∈ ls, ∃ y, w.send l g = .ok y ∧
      (w.requiresGrad l.target = true → y.extents = (w.value l.target).extents)) :
    ∃ w', sendAll ls g w = (.ok (), w') := by
  induction ls generalizing w with
  | nil => exact ⟨w, rfl⟩
  | cons l ls ih =>
    obtain ⟨⟨y, hsend, hextents⟩, hls⟩ := List.forall_mem_cons.mp hls
    obtain ⟨w₁, hadd⟩ := exists_addGradient hextents
    have hsame := (received_of_addGradient hadd).sameTape
    have hls : ∀ l ∈ ls, ∃ y, w₁.send l g = .ok y ∧
        (w₁.requiresGrad l.target = true → y.extents = (w₁.value l.target).extents) := by
      simpa only [hsame.send, hsame.value, hsame.requiresGrad] using hls
    obtain ⟨w', hrest⟩ := ih hls
    exact ⟨w', sendAll_cons_ok_iff.mpr ⟨y, w₁, hsend, hadd, hrest⟩⟩

/-- An operation that was called on one gradient can be called on every one that fits. -/
theorem passes_of_passOn (hfits : w.Fits) (hid : w.Live (id :: ids))
    (hids : w.Topological (id :: ids)) (h : passOn id w = (.ok (), w')) :
    w.Passes id ∧ ∀ l ∈ w.links (.node id), w.requiresGrad l.target = true →
      (w'.gradient l.target).isSome = true := by
  have hcalled : ∀ l ∈ w.links (.node id), ∃ g, w.gradient (.node id) = some g ∧
      sendAll (w.links (.node id)) g w = (.ok (), w') := by
    intro l hl
    have hlive := live_head hid hids (origin_of_mem_links hl)
    rcases passOn_cases h with ⟨g, -, hg, -, hsend⟩ | ⟨hnone | hnone, -⟩
    · exact ⟨g, hg, hsend⟩
    · rw [hnone] at hlive
      cases hlive
    · rw [origin_of_mem_links hl] at hnone
      cases hnone
  constructor
  · intro l hl a ha
    obtain ⟨g, hg, hsend⟩ := hcalled l hl
    obtain ⟨y, hy, hextents⟩ := sends_of_sendAll hsend l hl
    have hsame : g.extents = a.extents := (hfits _ g hg).trans ha.symm
    obtain ⟨z, hz, hzy⟩ := (w.send_additive l).ok_of_extents hsame hy
    exact ⟨z, hz, fun hwants => hzy.trans (hextents hwants)⟩
  · intro l hl hwants
    obtain ⟨g, -, hsend⟩ := hcalled l hl
    exact isSome_sendAll hl hwants hsend

theorem exists_passOn (hid : w.Passes id) (hfits : w.Fits) : ∃ w', passOn id w = (.ok (), w') := by
  cases hg : w.gradient (.node id) with
  | none => exact ⟨w, passOn_of_none (.inl hg)⟩
  | some g =>
    cases hop : w.origin (.node id) with
    | none => exact ⟨w, passOn_of_none (.inr hop)⟩
    | some op =>
      rw [passOn_of_gradient hg hop]
      apply exists_sendAll
      intro l hl
      exact hid l hl g (hfits _ g hg)

theorem exists_sweep (hids : ∀ id ∈ ids, w.Passes id) (hfits : w.Fits) :
    ∃ w', ids.forM passOn w = (.ok (), w') := by
  induction ids generalizing w with
  | nil => exact ⟨w, rfl⟩
  | cons id ids ih =>
    obtain ⟨hid, hids⟩ := List.forall_mem_cons.mp hids
    obtain ⟨w₁, hfirst⟩ := exists_passOn hid hfits
    have hgrown := grown_passOn hfirst
    obtain ⟨w', hrest⟩ := ih (fun n hn => hgrown.sameTape.passes (hids n hn)) (hgrown.fits hfits)
    exact ⟨w', forM_cons_ok_iff.mpr ⟨w₁, hfirst, hrest⟩⟩

/-- In a sweep that succeeds all operations were called, so all inputs have got something. -/
theorem passes_of_sweep (hw : w.Recorded) (hfits : w.Fits) (hlive : w.Live ids)
    (hids : w.Topological ids) (h : ids.forM passOn w = (.ok (), w')) :
    ∀ id ∈ ids, w.Passes id ∧ ∀ l ∈ w.links (.node id), w.requiresGrad l.target = true →
      (w'.gradient l.target).isSome = true := by
  induction ids generalizing w with
  | nil =>
    intro id hid
    cases hid
  | cons n ids ih =>
    obtain ⟨w₁, hfirst, hrest⟩ := forM_cons_ok_iff.mp h
    have hgrown := grown_passOn hfirst
    have hsame := hgrown.sameTape
    have ih := ih (hsame.recorded hw) (hgrown.fits hfits) (live_passOn hw hlive hids hfirst)
      (hsame.topological hids.2.2) hrest
    intro id hid
    rcases List.mem_cons.mp hid with rfl | hid
    · obtain ⟨hpasses, hsome⟩ := passes_of_passOn hfits hlive hids hfirst
      exact ⟨hpasses, fun l hl hwants => (grown_sweep hrest).isSome (hsome l hl hwants)⟩
    · obtain ⟨hpasses, hsome⟩ := ih id hid
      refine ⟨hsame.symm.passes hpasses, ?_⟩
      simpa only [hsame.links, hsame.requiresGrad] using hsome

end Run

end NeuralNet
