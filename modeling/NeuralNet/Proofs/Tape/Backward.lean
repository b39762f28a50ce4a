import NeuralNet.Proofs.Checks
import NeuralNet.Proofs.Tape.Turns
import NeuralNet.Tape.Compute

/-!
# Sending gradients back

* `backward_sum_over_paths`: every operation behind the root is called once, on a complete gradient,
  and every array that wants a gradient gets the sum of what all paths make of the seed.
-/

namespace NeuralNet

open Relation (ReflTransGen)
open Workspace Run

variable {α : Type} [ExactScalar α] {w w' w₁ : Workspace α} {root s t u : Tensor}
  {op : Operation α} {l : Link α} {p : List (Link α)} {g : DenseArray α} {id : Nat}

namespace Workspace

omit [ExactScalar α] in
theorem Recorded.mem_order (hw : w.Recorded) : id ∈ w.order root ↔ w.Reaches root (.node id) := by
  cases root with
  | node n => rw [Workspace.mem_order, hw.behind_iff]
  | weight slot =>
    constructor
    · intro h
      cases h
    · intro h
      obtain ⟨p, hp⟩ := exists_path.mpr h
      cases p with
      | nil => cases hp
      | cons l p => cases hp.1

omit [ExactScalar α] in
/-- What leads to an array that wants a gradient wants one too. -/
theorem Recorded.wanted_of_isPath (hw : w.Recorded) (hp : w.IsPath s p t)
    (ht : w.requiresGrad t = true) : w.requiresGrad s = true := by
  cases p with
  | nil =>
    obtain rfl : s = t := hp
    exact ht
  | cons l p => exact hw.wanted (origin_of_mem_links hp.1)

/-- Where all operations on the way can be called, a gradient that fits arrives as one that fits. -/
theorem Recorded.carry_ok (hw : w.Recorded) (hpasses : ∀ id ∈ w.order s, w.Passes id)
    (hp : w.IsPath s p t) (ht : w.requiresGrad t = true) (hg : g.extents = (w.value s).extents) :
    ∃ y, w.carry p g = .ok y ∧ y.extents = (w.value t).extents := by
  induction p generalizing s g with
  | nil =>
    obtain rfl : s = t := hp
    exact ⟨g, rfl, hg⟩
  | cons l p ih =>
    obtain ⟨hl, hp⟩ := hp
    cases s with
    | weight slot => cases hl
    | node id =>
      obtain ⟨y, hsend, hextents⟩ := hpasses id (hw.mem_order.mpr .refl) l hl g hg
      have hrest : ∀ n ∈ w.order l.target, w.Passes n := by
        intro n hn
        exact hpasses n (hw.mem_order.mpr (.head ⟨l, hl, rfl⟩ (hw.mem_order.mp hn)))
      obtain ⟨z, hz, hzt⟩ := ih hrest hp (hextents (hw.wanted_of_isPath hp ht))
      refine ⟨z, ?_, hzt⟩
      rw [carry_cons, hsend]
      exact hz

omit [ExactScalar α] in
/-- When the root has its gradient, no other node of the sweep lacks one for long. -/
theorem live_order (hroot : (w.gradient root).isSome = true) :
    w.Live (w.order root) := by
  intro id hid op hop
  cases root with
  | weight slot => cases hid
  | node r =>
    have hbehind := Workspace.mem_order.mp hid
    rcases ReflTransGen.cases_tail hbehind with rfl | ⟨m, hm, hsource⟩
    · exact .inl hroot
    · exact .inr ⟨m, Workspace.mem_order.mpr hm, hsource⟩

end Workspace

namespace Run

/-- A call puts its seed on the root, and then every operation behind it has its turn. -/
theorem sweep_of_backward (hroot : w.requiresGrad root = true)
    (h : backward root w = (.ok (), w')) :
    ∃ w₁, addGradient root (.ones (w.value root).extents) w = (.ok (), w₁) ∧
      (w.order root).forM passOn w₁ = (.ok (), w') ∧
      w.Received w₁ root (.ones (w.value root).extents) ∧
      w₁.Live (w.order root) ∧ w₁.Topological (w.order root) := by
  obtain ⟨w₁, hseed, hsweep⟩ := backward_ok_iff.mp h
  have hreceived := received_of_addGradient hseed
  have hsame := hreceived.sameTape
  refine ⟨w₁, hseed, hsweep, hreceived, ?_, hsame.topological (w.topological_order root)⟩
  rw [← hsame.order]
  apply live_order
  rw [hreceived.added hroot, Option.isSome_some]

/-- A call that succeeds called all operations behind the root. -/
theorem passes_of_backward (hw : w.Recorded) (hfits : w.Fits) (hroot : w.requiresGrad root = true)
    (h : backward root w = (.ok (), w')) : ∀ id ∈ w.order root, w.Passes id := by
  obtain ⟨w₁, -, hsweep, hreceived, hlive, htopological⟩ := sweep_of_backward hroot h
  have hsame := hreceived.sameTape
  intro id hid
  have hpasses := passes_of_sweep (hsame.recorded hw) (hreceived.fits hfits) hlive htopological
    hsweep id hid
  exact hsame.symm.passes hpasses.1

/-- After a call just the arrays have a gradient that had one, or are behind the root. -/
theorem isSome_backward (hw : w.Recorded) (hfits : w.Fits) (hroot : w.requiresGrad root = true)
    (h : backward root w = (.ok (), w')) (ht : w.requiresGrad t = true) :
    (w'.gradient t).isSome = true ↔ (w.gradient t).isSome = true ∨ w.Reaches root t := by
  obtain ⟨w₁, -, hsweep, hreceived, hlive, htopological⟩ := sweep_of_backward hroot h
  have hsame := hreceived.sameTape
  have hgrown := grown_sweep hsweep
  constructor
  · intro hsome
    by_contra hnot
    obtain ⟨hold, hreach⟩ := not_or.mp hnot
    have hne : t ≠ root := by
      rintro rfl
      exact hreach .refl
    have hunreached : ∀ id ∈ w.order root, ∀ l ∈ w₁.links (.node id), l.target ≠ t := by
      rintro id hid l hl rfl
      rw [hsame.links] at hl
      exact hreach (.tail (hw.mem_order.mp hid) ⟨l, hl, rfl⟩)
    rw [gradient_sweep_of_ne hunreached hsweep, hreceived.other hne] at hsome
    exact hold hsome
  · rintro (hold | hreach)
    · exact hgrown.isSome (hreceived.grown.isSome hold)
    · rcases ReflTransGen.cases_tail hreach with rfl | ⟨s, hs, l, hl, rfl⟩
      · apply hgrown.isSome
        rw [hreceived.added hroot, Option.isSome_some]
      · cases s with
        | weight slot => cases hl
        | node id =>
          have hpasses := passes_of_sweep (hsame.recorded hw) (hreceived.fits hfits) hlive
            htopological hsweep id (hw.mem_order.mpr hs)
          apply hpasses.2 l
          · rwa [hsame.links]
          · rwa [hsame.requiresGrad]

/-- At its turn a recorded node passes on the gradient that it has in the end. -/
theorem gradient_at_turn (hw : w.Recorded) (hroot : w.requiresGrad root = true)
    (h : backward root w = (.ok (), w')) {before after : List Nat}
    (hsplit : w.order root = before ++ id :: after) (hop : w.origin (.node id) = some op) :
    ∃ w₁ w₂ g, addGradient root (.ones (w.value root).extents) w = (.ok (), w₁) ∧
      before.forM passOn w₁ = (.ok (), w₂) ∧
      passOn id w₂ = sendAll (w.links (.node id)) g w₂ ∧ w'.gradient (.node id) = some g := by
  obtain ⟨w₁, hseed, hsweep, hreceived, hlive, htopological⟩ := sweep_of_backward hroot h
  rw [hsplit] at hsweep hlive htopological
  obtain ⟨w₂, hbefore, hafter⟩ := forM_append_ok_iff.mp hsweep
  have hsame := hreceived.sameTape
  have hsame' := hsame.trans (grown_sweep hbefore).sameTape
  have hrecorded := hsame'.recorded hw
  have hlive' := live_sweep (hsame.recorded hw) hlive htopological hbefore
  have htopological' := hsame'.topological (hsame.symm.topological htopological.of_append)
  have hop' : w₂.origin (.node id) = some op := by rw [hsame'.origin, hop]
  obtain ⟨g, hg⟩ := Option.isSome_iff_exists.mp (live_head hlive' htopological' hop')
  refine ⟨w₁, w₂, g, hseed, hbefore, ?_, ?_⟩
  · rw [passOn_of_gradient hg hop', hsame'.links]
  · rw [gradient_sweep_of_ne ?_ hafter, hg]
    -- a node gets its gradient from the nodes before it
    intro n hn l hl htarget
    have hbefore : n ∈ [] :=
      Topological.mem_before htopological' hn (hrecorded.mem_sources.mpr ⟨l, hl, htarget⟩)
    cases hbefore

/-- The gradient that a call leaves on an array that had none is the sum of what all paths from the
root make of the seed. -/
theorem gradient_of_backward (hw : w.Recorded) (hfresh : ∀ t, w.gradient t = none)
    (hroot : w.requiresGrad root = true) (h : backward root w = (.ok (), w'))
    (ht : w.requiresGrad t = true) : ∃ gs,
      (w.paths root t).mapM (fun p => w.carry p (.ones (w.value root).extents)) = .ok gs ∧
        w'.gradient t = DenseArray.sum? gs := by
  have hfits := fits_of_fresh hfresh
  obtain ⟨w₁, hseed, hsweep⟩ := backward_ok_iff.mp h
  have hgrown := (received_of_addGradient hseed).grown.trans (grown_sweep hsweep)
  have hcarry : ∀ p ∈ w.paths root t, ∃ y,
      w.carry p (.ones (w.value root).extents) = .ok y ∧ y.extents = (w.value t).extents := by
    intro p hp
    exact hw.carry_ok (passes_of_backward hw hfits hroot h) (hw.mem_paths.mp hp) ht rfl
  obtain ⟨gs, hall⟩ := exists_forall₂.mpr hcarry
  obtain ⟨hgs, hextents⟩ := forall₂_and.mp hall
  refine ⟨gs, mapM_eq_ok_iff.mpr hgs, ?_⟩
  apply DenseArray.eq_sum? (s := (w.value t).extents)
  · intro g hg
    rw [← hgrown.sameTape.value]
    exact hgrown.fits hfits t g hg
  · intro g hg
    obtain ⟨p, -, hp⟩ := exists_of_mem_right hextents hg
    exact hp
  · rw [isSome_backward hw hfits hroot h ht, hfresh, ← hw.paths_ne_nil, ne_eq, ne_eq,
      ← List.length_eq_zero_iff, ← List.length_eq_zero_iff, hgs.length_eq]
    simp
  · intro k
    have hdue : w.due (w.order root) t k = 0 := by
      rw [due_of_none fun id _ => hfresh (.node id), amount, hfresh]
      rfl
    have hentries := map_eq_map_of_forall₂ (f := fun p => entryOf k (w.carry p _))
      (g := fun g => g.entry k) hgs fun p g hpg => by rw [hpg, entryOf]
    rw [hentries]
    exact (amount_backward hw hfits ht k h).trans (by rw [hdue, zero_add, arriving])

/-- From a state without gradients, a call that succeeds has every node behind the root once in its
order, and calls every operation on the gradient that is complete then, after those of all that was
computed from its result. It leaves on every array that wants a gradient the sum, over all paths
from the root, of what the path makes of an array of ones. -/
theorem backward_sum_over_paths (hw : w.Recorded) (hfresh : ∀ t, w.gradient t = none)
    (hroot : w.requiresGrad root = true) (h : backward root w = (.ok (), w')) :
    (w.order root).Nodup ∧
    (∀ id, id ∈ w.order root ↔ w.Reaches root (.node id)) ∧
    (∀ before id after op, w.order root = before ++ id :: after → w.origin (.node id) = some op →
      (∀ n, w.Reaches root (.node n) → (∃ l ∈ w.links (.node n), l.target = .node id) →
        n ∈ before) ∧
      ∃ w₁ w₂ g, addGradient root (.ones (w.value root).extents) w = (.ok (), w₁) ∧
        before.forM passOn w₁ = (.ok (), w₂) ∧
        passOn id w₂ = sendAll (w.links (.node id)) g w₂ ∧ w'.gradient (.node id) = some g) ∧
    ∀ t, w.requiresGrad t = true → ∃ (ps : List (List (Link α))) (gs : List (DenseArray α)),
      ps.Nodup ∧ (∀ p, p ∈ ps ↔ w.IsPath root p t) ∧
      ps.mapM (fun p => w.carry p (.ones (w.value root).extents)) = .ok gs ∧
      w'.gradient t = DenseArray.sum? gs := by
  refine ⟨(w.topological_order root).nodup, fun id => hw.mem_order, ?_, ?_⟩
  · intro before id after op hsplit hop
    refine ⟨?_, gradient_at_turn hw hroot h hsplit hop⟩
    intro n hn hlink
    have htopological := w.topological_order root
    rw [hsplit] at htopological
    refine htopological.mem_before ?_ (hw.mem_sources.mpr hlink)
    rw [← hsplit]
    exact hw.mem_order.mpr hn
  · intro t ht
    obtain ⟨gs, hgs, hsum⟩ := gradient_of_backward hw hfresh hroot h ht
    exact ⟨w.paths root t, gs, hw.nodup_paths root t, fun p => hw.mem_paths, hgs, hsum⟩

section Example

/-- The sum of the squares of three numbers. -/
def squares : Run ℚ Tensor := do
  let x ← leaf (.ofVector [1, -2, 3]) true
  (← x.mul x).sum

theorem squares_eq : ∃ y z, (squares (.seeded 0)).2 =
    (record (.sum (.node 1)) z (record (.mul (.node 0) (.node 0)) y
      (leaf (.ofVector [1, -2, 3]) true (.seeded 0)).2).2).2 := ⟨_, _, rfl⟩

theorem recorded_squares : (squares (.seeded 0)).2.Recorded := by
  obtain ⟨y, z, htape⟩ := squares_eq
  rw [htape]
  apply recorded_record
  · apply recorded_record
    · exact recorded_leaf (recorded_seeded 0) _ _
    · decide
  · intro u hu
    obtain rfl : u = .node 1 := List.mem_singleton.mp hu
    rfl

theorem gradient_squares (t : Tensor) : (squares (.seeded 0)).2.gradient t = none := by
  obtain ⟨y, z, htape⟩ := squares_eq
  rw [htape]
  exact gradient_record (gradient_record (gradient_leaf (gradient_seeded 0) _ _) _ _) _ _ t

/-- Both places of a factor in its square count. -/
theorem backward_sum_over_paths_squares :
    let w := (squares (.seeded 0)).2
    w.Recorded ∧ (∀ t, w.gradient t = none) ∧ w.requiresGrad (.node 2) = true ∧
    ∃ w', backward (.node 2) w = (.ok (), w') ∧
      ∃ (ps : List (List (Link ℚ))) (gs : List (DenseArray ℚ)),
        ps.Nodup ∧ (∀ p, p ∈ ps ↔ w.IsPath (.node 2) p (.node 0)) ∧
        ps.mapM (fun p => w.carry p (.ones [])) = .ok gs ∧
        DenseArray.sum? gs = some (.ofVector [2, -4, 6]) := by
  intro w
  have hroot : w.requiresGrad (.node 2) = true := by decide +kernel
  have hok : (backward (.node 2) w).1 = .ok () := by decide +kernel
  have hrun : backward (.node 2) w = (.ok (), (backward (.node 2) w).2) := Prod.ext hok rfl
  refine ⟨recorded_squares, gradient_squares, hroot, _, hrun, ?_⟩
  obtain ⟨ps, gs, hnodup, hpaths, hgs, hsum⟩ :=
    (backward_sum_over_paths recorded_squares gradient_squares hroot hrun).2.2.2 (.node 0)
      (by decide +kernel)
  refine ⟨ps, gs, hnodup, hpaths, hgs, hsum.symm.trans ?_⟩
  decide +kernel

end Example

end Run

end NeuralNet
