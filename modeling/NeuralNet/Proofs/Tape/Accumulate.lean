import NeuralNet.Proofs.Tape.Additive
import NeuralNet.Proofs.Tape.Context
import NeuralNet.Proofs.Tape.Paths

/-!
# Adding to a gradient

* `addGradient_apply`: what is added where, and when that fails;
* `SameTape`: gradients are all that changes, so the graph on the tape stays.
-/

namespace NeuralNet

namespace Workspace

variable {α : Type} {w w' w'' : Workspace α} {t u : Tensor} {id : Nat} {g : DenseArray α}

/-- The two differ in no more than their gradients. -/
structure SameTape (w w' : Workspace α) : Prop where
  origin : ∀ t, w'.origin t = w.origin t
  value : ∀ t, w'.value t = w.value t
  requiresGrad : ∀ t, w'.requiresGrad t = w.requiresGrad t

namespace SameTape

theorem refl (w : Workspace α) : w.SameTape w := ⟨fun _ => rfl, fun _ => rfl, fun _ => rfl⟩

theorem trans (h : w.SameTape w') (h' : w'.SameTape w'') : w.SameTape w'' := by
  constructor
  · intro t
    rw [h'.origin, h.origin]
  · intro t
    rw [h'.value, h.value]
  · intro t
    rw [h'.requiresGrad, h.requiresGrad]

theorem symm (h : w.SameTape w') : w'.SameTape w :=
  ⟨fun t => (h.origin t).symm, fun t => (h.value t).symm, fun t => (h.requiresGrad t).symm⟩

theorem links (h : w.SameTape w') (t : Tensor) : w'.links t = w.links t := by
  rw [Workspace.links, Workspace.links, h.origin]

theorem reaches (h : w.SameTape w') : w'.Reaches = w.Reaches := by
  unfold Reaches
  simp only [h.links]

theorem recorded (h : w.SameTape w') (hw : w.Recorded) : w'.Recorded := by
  constructor
  · intro t op ht
    rw [h.origin] at ht
    exact hw.earlier ht
  · intro t op ht
    rw [h.origin] at ht
    rw [h.requiresGrad]
    exact hw.wanted ht

theorem paths (h : w.SameTape w') (hw : w.Recorded) (s t : Tensor) :
    w'.paths s t = w.paths s t := by
  induction hs : s.rank using Nat.strongRecOn generalizing s with
  | ind n ih =>
    subst hs
    rw [(h.recorded hw).paths_eq, hw.paths_eq, h.links]
    congr 1
    refine List.flatMap_congr ?_
    intro l hl
    rw [ih _ (hw.rank_lt hl) l.target rfl]

theorem sources (h : w.SameTape w') (id : Nat) : w'.sources id = w.sources id := by
  have horigin : w'.nodes[id]?.bind (·.origin) = w.nodes[id]?.bind (·.origin) := h.origin (.node id)
  rw [Workspace.sources, Workspace.sources, horigin]

theorem visit (h : w.SameTape w') (id : Nat) (done : List Nat) :
    w'.visit id done = w.visit id done := by
  induction id using Nat.strongRecOn generalizing done with
  | ind id ih =>
    rw [Workspace.visit, Workspace.visit]
    split
    · rfl
    · rw [List.foldl_attach (f := fun done s => w'.visit s done),
        List.foldl_attach (f := fun done s => w.visit s done), h.sources]
      congr 1
      refine List.foldl_ext _ _ _ ?_
      intro done s hs
      exact ih s (lt_of_mem_sources hs) done

theorem order (h : w.SameTape w') (root : Tensor) : w'.order root = w.order root := by
  cases root with
  | weight slot => rfl
  | node id => exact h.visit id []

theorem topological (h : w.SameTape w') {ids : List Nat} (hids : w.Topological ids) :
    w'.Topological ids := by
  induction ids with
  | nil => trivial
  | cons id ids ih =>
    obtain ⟨hnew, hsources, hrest⟩ := hids
    refine ⟨hnew, ?_, ih hrest⟩
    rw [h.sources]
    exact hsources

end SameTape

theorem content?_modifyContent (w : Workspace α) (i j : Nat) (f : Content α → Content α) :
    (w.modifyContent i f).content? j = if i = j then (w.content? j).map f else w.content? j := by
  simp only [content?, modifyContent, modifySlot, Array.getElem?_modify]
  split
  · cases w.slots[j]? <;> rfl
  · rfl

theorem sameTape_setGradient (w : Workspace α) (t : Tensor) (g : Option (DenseArray α)) :
    w.SameTape (w.setGradient t g) := by
  cases t with
  | weight i =>
    refine ⟨fun u => by cases u <;> rfl, ?_, ?_⟩
    · intro u
      cases u with
      | node id => rfl
      | weight j =>
        simp only [setGradient, value, content?_modifyContent]
        split
        · cases w.content? j <;> rfl
        · rfl
    · intro u
      cases u with
      | node id => rfl
      | weight j =>
        simp only [setGradient, requiresGrad, content?_modifyContent]
        split
        · cases w.content? j <;> rfl
        · rfl
  | node i =>
    refine ⟨?_, ?_, ?_⟩
    all_goals
      intro u
      cases u with
      | weight j => rfl
      | node j =>
        simp only [setGradient, modifyNode, origin, value, requiresGrad, Array.getElem?_modify]
        split
        · cases w.nodes[j]? <;> rfl
        · rfl

/-- An array that wants a gradient is there. -/
theorem gradient_setGradient (h : w.requiresGrad t = true) (g : Option (DenseArray α)) :
    (w.setGradient t g).gradient t = g := by
  cases t with
  | weight i =>
    simp only [requiresGrad] at h
    cases hc : w.content? i with
    | none =>
      rw [hc] at h
      cases h
    | some c => simp [setGradient, gradient, content?_modifyContent, hc]
  | node i =>
    simp only [requiresGrad] at h
    cases hnode : w.nodes[i]? with
    | none =>
      rw [hnode] at h
      cases h
    | some n => simp [setGradient, gradient, modifyNode, Array.getElem?_modify, hnode]

theorem gradient_setGradient_of_ne (h : u ≠ t) (g : Option (DenseArray α)) :
    (w.setGradient t g).gradient u = w.gradient u := by
  cases t with
  | weight i =>
    cases u with
    | node j => rfl
    | weight j =>
      have hij : i ≠ j := fun hij => h (congrArg Tensor.weight hij.symm)
      simp only [setGradient, gradient, content?_modifyContent, if_neg hij]
  | node i =>
    cases u with
    | weight j => rfl
    | node j =>
      have hij : i ≠ j := fun hij => h (congrArg Tensor.node hij.symm)
      simp only [setGradient, gradient, modifyNode, Array.getElem?_modify, if_neg hij]

/-- The gradients that are there have the extents of their arrays. -/
def Fits (w : Workspace α) : Prop := ∀ t g, w.gradient t = some g → g.extents = (w.value t).extents

theorem fits_of_fresh (h : ∀ t, w.gradient t = none) : w.Fits := by
  intro t g hg
  rw [h] at hg
  cases hg

end Workspace

variable {α : Type} [ExactScalar α] {w w' w'' : Workspace α} {t u : Tensor} {g : DenseArray α}

namespace Workspace

/-- A gradient was added to that of an array, if it wants one. -/
structure Received (w w' : Workspace α) (t : Tensor) (g : DenseArray α) : Prop where
  sameTape : w.SameTape w'
  other : ∀ {u}, u ≠ t → w'.gradient u = w.gradient u
  ignored : w.requiresGrad t = false → w'.gradient t = w.gradient t
  extents : w.requiresGrad t = true → g.extents = (w.value t).extents
  added : w.requiresGrad t = true → w'.gradient t = some ((w.gradient t).elim g (·.plus g))

theorem Received.fits (h : w.Received w' t g) (hw : w.Fits) : w'.Fits := by
  intro u a ha
  rw [h.sameTape.value]
  by_cases hu : u = t
  · subst hu
    cases hwants : w.requiresGrad u with
    | false =>
      rw [h.ignored hwants] at ha
      exact hw u a ha
    | true =>
      rw [h.added hwants] at ha
      cases hold : w.gradient u with
      | none =>
        rw [hold] at ha
        cases ha
        exact h.extents hwants
      | some old =>
        rw [hold] at ha
        cases ha
        exact hw u old hold
  · rw [h.other hu] at ha
    exact hw u a ha

theorem Received.isSome (h : w.Received w' t g) (hu : (w.gradient u).isSome = true) :
    (w'.gradient u).isSome = true := by
  by_cases hut : u = t
  · subst hut
    cases hwants : w.requiresGrad u with
    | false => rwa [h.ignored hwants]
    | true => rw [h.added hwants, Option.isSome_some]
  · rwa [h.other hut]

/-- Gradients were added: once there is one, there always is, and all of them fit. -/
structure Grown (w w' : Workspace α) : Prop where
  sameTape : w.SameTape w'
  fits : w.Fits → w'.Fits
  isSome : ∀ {u}, (w.gradient u).isSome = true → (w'.gradient u).isSome = true

omit [ExactScalar α] in
theorem Grown.refl (w : Workspace α) : w.Grown w := ⟨.refl w, fun h => h, fun h => h⟩

omit [ExactScalar α] in
theorem Grown.trans (h : w.Grown w') (h' : w'.Grown w'') : w.Grown w'' :=
  ⟨h.sameTape.trans h'.sameTape, fun hw => h'.fits (h.fits hw), fun hu => h'.isSome (h.isSome hu)⟩

theorem Received.grown (h : w.Received w' t g) : w.Grown w' := ⟨h.sameTape, h.fits, h.isSome⟩

end Workspace

namespace Run

theorem addGradient_apply (t : Tensor) (g : DenseArray α) (w : Workspace α) : addGradient t g w =
    if w.requiresGrad t then
      if (w.value t).extents = g.extents then
        (.ok (), w.setGradient t (some ((w.gradient t).elim g (·.plus g))))
      else (.error (.shapeMismatch "gradient accumulation" (.extents (w.value t).extents)
        (.extents g.extents)), w)
    else (.ok (), w) := by
  unfold addGradient
  rw [bind_apply, get_apply]
  dsimp only
  split
  · split
    · cases w.gradient t <;> rfl
    · rfl
  · rfl

theorem received_of_addGradient (h : addGradient t g w = (.ok (), w')) : w.Received w' t g := by
  rw [addGradient_apply] at h
  split at h
  · rename_i hwants
    split at h
    · rename_i hextents
      cases h
      refine ⟨w.sameTape_setGradient t _, ?_, ?_, fun _ => hextents.symm, ?_⟩
      · intro u hu
        exact Workspace.gradient_setGradient_of_ne hu _
      · intro hnot
        rw [hwants] at hnot
        cases hnot
      · intro _
        exact Workspace.gradient_setGradient hwants _
    · cases h
  · rename_i hnot
    cases h
    refine ⟨.refl w, fun _ => rfl, fun _ => rfl, ?_, ?_⟩
    · intro hwants
      exact absurd hwants hnot
    · intro hwants
      exact absurd hwants hnot

theorem exists_addGradient (h : w.requiresGrad t = true → g.extents = (w.value t).extents) :
    ∃ w', addGradient t g w = (.ok (), w') := by
  rw [addGradient_apply]
  split
  · rename_i hwants
    rw [if_pos (h hwants).symm]
    exact ⟨_, rfl⟩
  · exact ⟨w, rfl⟩

end Run

end NeuralNet
