import NeuralNet.Proofs.Tape.Backward

/-!
# Sending gradients back several times

Every call adds what it would leave on its own. But results keep the gradients of earlier calls, and
a call with such a result behind its root sends them on once more.

* `gradient_of_backwards`: what is there in the end, with what was sent again.
-/

namespace NeuralNet

open Workspace Run

namespace Workspace

variable {α : Type} [Scalar α]

/-- What the gradients that the nodes behind a root have already give an array when they are passed
on. -/
def resent (w : Workspace α) (root t : Tensor) : List (DenseArray α) :=
  (w.order root).flatMap fun id =>
    (w.gradient (.node id)).elim [] fun g =>
      (w.links (.node id)).flatMap fun l =>
        (w.paths l.target t).filterMap fun p => (w.carry (l :: p) g).toOption

/-- What is sent again by calls one after another. -/
def resentBy (t : Tensor) : List Tensor → Workspace α → List (DenseArray α)
  | [], _ => []
  | root :: roots, w => w.resent root t ++ resentBy t roots (backward root w).2

/-- What the call on its own leaves on an array. -/
def alone (w : Workspace α) (root t : Tensor) : Option (DenseArray α) :=
  (backward root w).2.gradient t

end Workspace

variable {α : Type} [ExactScalar α] {w w' : Workspace α} {root t : Tensor} {roots : List Tensor}
  {a : DenseArray α} {k : Nat}

namespace Workspace

theorem sum_entry_filterMap {β : Type} (f : β → Option (DenseArray α)) (xs : List β) (k : Nat) :
    ((xs.filterMap f).map (·.entry k)).sum = (xs.map fun x => (f x).elim 0 (·.entry k)).sum := by
  induction xs with
  | nil => rfl
  | cons x xs ih =>
    cases hx : f x with
    | none => simp [hx, ih]
    | some a => simp [hx, ih]

theorem sum_entry_flatMap {β : Type} (f : β → List (DenseArray α)) (xs : List β) (k : Nat) :
    ((xs.flatMap f).map (·.entry k)).sum = (xs.map fun x => ((f x).map (·.entry k)).sum).sum := by
  rw [List.map_flatMap, List.flatMap, List.sum_flatten, List.map_map]
  rfl

theorem entryOf_eq (k : Nat) (y : Except Error (DenseArray α)) :
    y.toOption.elim 0 (·.entry k) = entryOf k y := by
  cases y <;> rfl

/-- What is sent again is what the nodes behind the root had to send before the call. -/
theorem sum_entry_resent (w : Workspace α) (root t : Tensor) (k : Nat) :
    ((w.resent root t).map (·.entry k)).sum = ((w.order root).map (w.pending t k)).sum := by
  rw [resent, sum_entry_flatMap]
  congr 2
  funext id
  rw [pending]
  cases w.gradient (.node id) with
  | none => rfl
  | some g =>
    simp only [Option.elim_some, sum_entry_flatMap, sum_entry_filterMap, entryOf_eq, onward, through]

/-- What is sent again comes over a path from a node behind the root. -/
theorem exists_of_mem_resent (h : a ∈ w.resent root t) : ∃ id g l p, id ∈ w.order root ∧
    w.gradient (.node id) = some g ∧ l ∈ w.links (.node id) ∧ p ∈ w.paths l.target t ∧
    w.carry (l :: p) g = .ok a := by
  obtain ⟨id, hid, ha⟩ := List.mem_flatMap.mp h
  cases hg : w.gradient (.node id) with
  | none =>
    rw [hg] at ha
    cases ha
  | some g =>
    rw [hg] at ha
    obtain ⟨l, hl, ha⟩ := List.mem_flatMap.mp ha
    obtain ⟨p, hp, ha⟩ := List.mem_filterMap.mp ha
    refine ⟨id, g, l, p, hid, hg, hl, hp, ?_⟩
    cases hcarry : w.carry (l :: p) g with
    | error e =>
      rw [hcarry] at ha
      cases ha
    | ok b =>
      rw [hcarry] at ha
      cases ha
      rfl

theorem Recorded.reaches_of_resent (hw : w.Recorded) (h : a ∈ w.resent root t) :
    w.Reaches root t := by
  obtain ⟨id, -, l, p, hid, -, hl, hp, -⟩ := exists_of_mem_resent h
  have hrest := exists_path.mp ⟨p, hw.mem_paths.mp hp⟩
  exact (hw.mem_order.mp hid).trans (.head ⟨l, hl, rfl⟩ hrest)

theorem Recorded.extents_resent (hw : w.Recorded) (hfits : w.Fits)
    (hpasses : ∀ id ∈ w.order root, w.Passes id) (ht : w.requiresGrad t = true)
    (h : a ∈ w.resent root t) : a.extents = (w.value t).extents := by
  obtain ⟨id, g, l, p, hid, hg, hl, hp, hcarry⟩ := exists_of_mem_resent h
  have hbehind : ∀ n ∈ w.order (.node id), w.Passes n := by
    intro n hn
    exact hpasses n (hw.mem_order.mpr ((hw.mem_order.mp hid).trans (hw.mem_order.mp hn)))
  obtain ⟨y, hy, hextents⟩ :=
    hw.carry_ok (p := l :: p) hbehind ⟨hl, hw.mem_paths.mp hp⟩ ht (hfits _ g hg)
  rw [hcarry] at hy
  cases hy
  exact hextents

/-- Nothing is sent again where no result behind the root has a gradient. -/
theorem resent_of_none
    (h : ∀ id ∈ w.order root, ∀ op, w.origin (.node id) = some op → w.gradient (.node id) = none) :
    w.resent root t = [] := by
  refine List.eq_nil_iff_forall_not_mem.mpr ?_
  intro a ha
  obtain ⟨id, g, l, p, hid, hg, hl, -, -⟩ := exists_of_mem_resent ha
  rw [h id hid l.op (origin_of_mem_links hl)] at hg
  cases hg

/-- The root wants a gradient, and all operations behind it can be called. -/
def Sends (w : Workspace α) (root : Tensor) : Prop :=
  w.requiresGrad root = true ∧ ∀ id ∈ w.order root, w.Passes id

theorem SameTape.sends (h : w.SameTape w') (hroot : w.Sends root) : w'.Sends root := by
  obtain ⟨hwants, hpasses⟩ := hroot
  constructor
  · rwa [h.requiresGrad]
  · intro id hid
    rw [h.order] at hid
    exact h.passes (hpasses id hid)

end Workspace

namespace Run

theorem grown_backward (h : backward root w = (.ok (), w')) : w.Grown w' := by
  obtain ⟨w₁, hseed, hsweep⟩ := backward_ok_iff.mp h
  exact (received_of_addGradient hseed).grown.trans (grown_sweep hsweep)

theorem exists_backward (hfits : w.Fits) (hroot : w.Sends root) :
    ∃ w', backward root w = (.ok (), w') := by
  obtain ⟨w₁, hseed⟩ : ∃ w₁, addGradient root (.ones (w.value root).extents) w = (.ok (), w₁) :=
    exists_addGradient fun _ => rfl
  have hreceived := received_of_addGradient hseed
  obtain ⟨w', hsweep⟩ := exists_sweep
    (fun id hid => hreceived.sameTape.passes (hroot.2 id hid)) (hreceived.fits hfits)
  exact ⟨w', backward_ok_iff.mpr ⟨w₁, hseed, hsweep⟩⟩

/-- An array has what it had, what every call sends it, and what is sent again. -/
theorem amount_backwards (hw : w.Recorded) (hfits : w.Fits)
    (hroots : ∀ root ∈ roots, w.Sends root) :
    ∃ w', roots.forM backward w = (.ok (), w') ∧ w.Grown w' ∧
      ∀ t, w.requiresGrad t = true →
        ((w'.gradient t).isSome = true ↔
          (w.gradient t).isSome = true ∨ ∃ root ∈ roots, w.Reaches root t) ∧
        ∀ k, w'.amount t k = w.amount t k +
          (roots.map fun root => w.arriving t k root (.ones (w.value root).extents)).sum +
          ((resentBy t roots w).map (·.entry k)).sum := by
  induction roots generalizing w with
  | nil =>
    refine ⟨w, rfl, .refl w, ?_⟩
    intro t ht
    simp [resentBy]
  | cons root roots ih =>
    obtain ⟨hroot, hroots⟩ := List.forall_mem_cons.mp hroots
    obtain ⟨w₁, hfirst⟩ := exists_backward hfits hroot
    have hgrown := grown_backward hfirst
    have hsame := hgrown.sameTape
    obtain ⟨w', hrest, hgrown', hall⟩ := ih (hsame.recorded hw) (hgrown.fits hfits)
      fun root' h => hsame.sends (hroots root' h)
    refine ⟨w', forM_cons_ok_iff.mpr ⟨w₁, hfirst, hrest⟩, hgrown.trans hgrown', ?_⟩
    intro t ht
    obtain ⟨hsome, hamount⟩ := hall t (by rwa [hsame.requiresGrad])
    constructor
    · rw [hsome, isSome_backward hw hfits hroot.1 hfirst ht, hsame.reaches]
      simp only [List.mem_cons, exists_eq_or_imp, or_assoc]
    · intro k
      rw [hamount, amount_backward hw hfits ht k hfirst, resentBy, hfirst, List.map_append,
        List.sum_append, sum_entry_resent, due, hsame.arriving hw, List.map_cons, List.sum_cons]
      simp only [hsame.value]
      ring

/-- What is sent again fits, and comes from a root. -/
theorem mem_resentBy (hw : w.Recorded) (hfits : w.Fits) (hroots : ∀ root ∈ roots, w.Sends root)
    (ht : w.requiresGrad t = true) (h : a ∈ resentBy t roots w) :
    a.extents = (w.value t).extents ∧ ∃ root ∈ roots, w.Reaches root t := by
  induction roots generalizing w with
  | nil => cases h
  | cons root roots ih =>
    obtain ⟨hroot, hroots⟩ := List.forall_mem_cons.mp hroots
    rcases List.mem_append.mp h with h | h
    · exact ⟨hw.extents_resent hfits hroot.2 ht h, root, List.mem_cons_self, hw.reaches_of_resent h⟩
    · obtain ⟨w₁, hfirst⟩ := exists_backward hfits hroot
      have hgrown := grown_backward hfirst
      have hsame := hgrown.sameTape
      rw [hfirst] at h
      obtain ⟨hextents, root', hroot', hreach⟩ := ih (hsame.recorded hw) (hgrown.fits hfits)
        (fun root' hroot' => hsame.sends (hroots root' hroot')) (by rwa [hsame.requiresGrad]) h
      rw [hsame.value] at hextents
      rw [hsame.reaches] at hreach
      exact ⟨hextents, root', List.mem_cons_of_mem _ hroot', hreach⟩

/-- No result is behind both roots. -/
def Apart (w : Workspace α) (root root' : Tensor) : Prop :=
  ∀ id, w.Reaches root (.node id) → w.Reaches root' (.node id) → w.origin (.node id) = none

theorem resentBy_of_apart (hw : w.Recorded) (hfits : w.Fits)
    (hroots : ∀ root ∈ roots, w.Sends root) (hapart : roots.Pairwise (Apart w))
    (hnone : ∀ root ∈ roots, ∀ id op, w.Reaches root (.node id) → w.origin (.node id) = some op →
      w.gradient (.node id) = none) : resentBy t roots w = [] := by
  induction roots generalizing w with
  | nil => rfl
  | cons root roots ih =>
    obtain ⟨hroot, hroots⟩ := List.forall_mem_cons.mp hroots
    obtain ⟨hfree, hnone⟩ := List.forall_mem_cons.mp hnone
    obtain ⟨hothers, hapart⟩ := List.pairwise_cons.mp hapart
    obtain ⟨w₁, hfirst⟩ := exists_backward hfits hroot
    have hgrown := grown_backward hfirst
    have hsame := hgrown.sameTape
    have hresent : w.resent root t = [] := by
      apply resent_of_none
      intro id hid op hop
      exact hfree id op (hw.mem_order.mp hid) hop
    rw [resentBy, hresent, hfirst, List.nil_append]
    apply ih (hsame.recorded hw) (hgrown.fits hfits)
    · intro root' hroot'
      exact hsame.sends (hroots root' hroot')
    · unfold Apart
      simp only [hsame.reaches, hsame.origin]
      exact hapart
    · intro root' hroot' id op hreach hop
      rw [hsame.reaches] at hreach
      rw [hsame.origin] at hop
      by_contra hsome
      have hsome := Option.isSome_iff_ne_none.mpr hsome
      rw [isSome_backward hw hfits hroot.1 hfirst (hw.wanted hop)] at hsome
      rcases hsome with hsome | hbehind
      · rw [hnone root' hroot' id op hreach hop] at hsome
        cases hsome
      · rw [hothers root' hroot' id hbehind hreach] at hop
        cases hop

/-- What a call leaves on its own comes from its root. -/
theorem alone_spec (hw : w.Recorded) (hfresh : ∀ t, w.gradient t = none) (hroot : w.Sends root)
    (ht : w.requiresGrad t = true) :
    (∀ a, w.alone root t = some a → a.extents = (w.value t).extents) ∧
    ((w.alone root t).isSome = true ↔ w.Reaches root t) ∧
    ∀ k, (w.alone root t).elim 0 (·.entry k) =
      w.arriving t k root (.ones (w.value root).extents) := by
  have hfits := fits_of_fresh hfresh
  obtain ⟨w', hrun⟩ := exists_backward hfits hroot
  have hgrown := grown_backward hrun
  have halone : w.alone root t = w'.gradient t := by rw [alone, hrun]
  rw [halone]
  refine ⟨?_, ?_, ?_⟩
  · intro a ha
    rw [hgrown.fits hfits t a ha, hgrown.sameTape.value]
  · rw [isSome_backward hw hfits hroot.1 hrun ht, hfresh]
    simp
  · intro k
    refine (amount_backward hw hfits ht k hrun).trans ?_
    rw [due_of_none fun id _ => hfresh (.node id), amount, hfresh, Option.elim_none, zero_add]

/-- Calls one after another from a state without gradients succeed if each does on its own. They
leave on every array that wants a gradient the sum of what each leaves there on its own, and of what
the gradients of earlier calls on results give it when they are sent again. If no result is behind
two of the roots there is nothing of that. -/
theorem gradient_of_backwards (hw : w.Recorded) (hfresh : ∀ t, w.gradient t = none)
    (hroots : ∀ root ∈ roots, w.requiresGrad root = true ∧
      ∃ w', backward root w = (.ok (), w')) :
    ∃ w', roots.forM backward w = (.ok (), w') ∧ ∀ t, w.requiresGrad t = true →
      w'.gradient t =
        DenseArray.sum? (roots.filterMap (w.alone · t) ++ resentBy t roots w) ∧
      (roots.Pairwise (Apart w) →
        w'.gradient t = DenseArray.sum? (roots.filterMap (w.alone · t))) := by
  have hfits := fits_of_fresh hfresh
  have hsends : ∀ root ∈ roots, w.Sends root := by
    intro root hroot
    obtain ⟨hwants, w', hrun⟩ := hroots root hroot
    exact ⟨hwants, passes_of_backward hw hfits hwants hrun⟩
  obtain ⟨w', hrun, hgrown, hall⟩ := amount_backwards hw hfits hsends
  refine ⟨w', hrun, ?_⟩
  intro t ht
  obtain ⟨hsome, hamount⟩ := hall t ht
  have halone := fun root hroot => alone_spec hw hfresh (hsends root hroot) ht
  have hsum : w'.gradient t =
      DenseArray.sum? (roots.filterMap (w.alone · t) ++ resentBy t roots w) := by
    apply DenseArray.eq_sum? (s := (w.value t).extents)
    · intro a ha
      rw [hgrown.fits hfits t a ha, hgrown.sameTape.value]
    · intro a ha
      rcases List.mem_append.mp ha with ha | ha
      · obtain ⟨root, hroot, ha⟩ := List.mem_filterMap.mp ha
        exact (halone root hroot).1 a ha
      · exact (mem_resentBy hw hfits hsends ht ha).1
    · rw [hsome, hfresh]
      constructor
      · rintro (hnone | ⟨root, hroot, hreach⟩)
        · cases hnone
        · obtain ⟨a, ha⟩ := Option.isSome_iff_exists.mp ((halone root hroot).2.1.mpr hreach)
          have hmem : a ∈ roots.filterMap (w.alone · t) :=
            List.mem_filterMap.mpr ⟨root, hroot, ha⟩
          exact List.ne_nil_of_mem (List.mem_append_left _ hmem)
      · intro hne
        obtain ⟨a, ha⟩ := List.exists_mem_of_ne_nil _ hne
        rcases List.mem_append.mp ha with ha | ha
        · obtain ⟨root, hroot, ha⟩ := List.mem_filterMap.mp ha
          exact .inr ⟨root, hroot, (halone root hroot).2.1.mp (ha ▸ Option.isSome_some)⟩
        · exact .inr (mem_resentBy hw hfits hsends ht ha).2
    · intro k
      rw [List.map_append, List.sum_append, sum_entry_filterMap]
      refine (hamount k).trans ?_
      rw [amount, hfresh, Option.elim_none, zero_add]
      congr 2
      exact List.map_congr_left fun root hroot => ((halone root hroot).2.2 k).symm
  refine ⟨hsum, ?_⟩
  intro hapart
  have hnothing : resentBy t roots w = [] :=
    resentBy_of_apart hw hfits hsends hapart fun _ _ id _ _ _ => hfresh (.node id)
  rw [hsum, hnothing, List.append_nil]

section Example

/-- The second call sends again what the sum and the squares have from the first one, over the paths
through both places of the factor. -/
theorem gradient_of_backwards_squares :
    let w := (squares (.seeded 0)).2
    w.Recorded ∧ (∀ t, w.gradient t = none) ∧
    (∀ root ∈ [Tensor.node 2, .node 2], w.requiresGrad root = true ∧
      ∃ w', backward root w = (.ok (), w')) ∧
    ∃ w', [Tensor.node 2, .node 2].forM backward w = (.ok (), w') ∧
      w'.gradient (.node 0) = DenseArray.sum?
        (.replicate 2 (.ofVector [2, -4, 6]) ++ .replicate 4 (.ofVector [1, -2, 3])) := by
  intro w
  have hroot : w.requiresGrad (.node 2) = true := by decide +kernel
  have hok : (backward (.node 2) w).1 = .ok () := by decide +kernel
  have hroots : ∀ root ∈ [Tensor.node 2, .node 2], w.requiresGrad root = true ∧
      ∃ w', backward root w = (.ok (), w') := by
    intro root hmem
    obtain rfl : root = .node 2 := by simpa using hmem
    exact ⟨hroot, _, Prod.ext hok rfl⟩
  refine ⟨recorded_squares, gradient_squares, hroots, ?_⟩
  obtain ⟨w', hrun, hall⟩ := gradient_of_backwards recorded_squares gradient_squares hroots
  refine ⟨w', hrun, (hall (.node 0) (by decide +kernel)).1.trans ?_⟩
  decide +kernel

/-- So the numbers do not get twice what one call leaves on them. -/
theorem gradient_of_backwards_twice :
    let w := (squares (.seeded 0)).2
    w.Recorded ∧ (∀ t, w.gradient t = none) ∧ w.requiresGrad (.node 2) = true ∧
    w.requiresGrad (.node 0) = true ∧ w.origin (.node 0) = none ∧
    w.alone (.node 2) (.node 0) = some (.ofVector [2, -4, 6]) ∧
    ∃ w', [Tensor.node 2, .node 2].forM backward w = (.ok (), w') ∧
      w'.gradient (.node 0) = some (.ofVector [8, -16, 24]) ∧
      w'.gradient (.node 0) ≠
        DenseArray.sum? ([Tensor.node 2, .node 2].filterMap (w.alone · (.node 0))) := by
  intro w
  have hok : ([Tensor.node 2, .node 2].forM backward w).1 = .ok () := by decide +kernel
  refine ⟨recorded_squares, gradient_squares, by decide +kernel, by decide +kernel, rfl,
    by decide +kernel, ([Tensor.node 2, .node 2].forM backward w).2, Prod.ext hok rfl, ?_, ?_⟩
  · decide +kernel
  · decide +kernel

end Example

end Run

end NeuralNet
