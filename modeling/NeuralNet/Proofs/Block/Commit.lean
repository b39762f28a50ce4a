import NeuralNet.Block.Storage

/-!
# Storing new values

New values are stored slot after slot. A value that fits its slot at the start still fits when its
turn comes, because the slots before it were others: `commit_of_fits` stores them all.
-/

namespace NeuralNet

namespace Run

variable {α β γ : Type}

theorem bind_apply (x : Run α β) (f : β → Run α γ) (w : Workspace α) :
    (x >>= f) w =
      match x w with
      | (.ok b, w') => f b w'
      | (.error e, w') => (.error e, w') := by
  simp only [bind, ExceptT.bind, ExceptT.mk, StateT.bind]
  rcases x w with ⟨_ | _, _⟩ <;> rfl

theorem get_apply (w : Workspace α) : (get : Run α (Workspace α)) w = (.ok w, w) := rfl

theorem check_apply (x : Except Error β) (w : Workspace α) : Run.check x w = (x, w) := rfl

theorem value_apply (t : Tensor) (w : Workspace α) : Run.value t w = (.ok (w.value t), w) := rfl

end Run

namespace Workspace

variable {α : Type} {w w' w'' : Workspace α} {i j : Nat} {f : Slot α → Slot α}

theorem slot_modifySlot (h : i < w.slots.size) : (w.modifySlot i f).slot i = f (w.slot i) := by
  simp [slot, modifySlot, h, Array.getElem_modify]

theorem slot_modifySlot_of_ne (h : i ≠ j) : (w.modifySlot i f).slot j = w.slot j := by
  simp [slot, modifySlot, Array.getD_eq_getD_getElem?, Array.getElem?_modify, h]

/-- One slot changes at most. -/
theorem slot_modifySlot_cases (w : Workspace α) (i j : Nat) (f : Slot α → Slot α) :
    (w.modifySlot j f).slot i = w.slot i ∨ i = j ∧ (w.modifySlot j f).slot i = f (w.slot i) := by
  by_cases hij : j = i
  · subst hij
    by_cases hlt : j < w.slots.size
    · exact .inr ⟨rfl, slot_modifySlot hlt⟩
    · left
      simp [slot, modifySlot, hlt]
  · exact .inl (slot_modifySlot_of_ne hij)

/-- No more than these slots differ. -/
structure Updates (w w' : Workspace α) (changed : List Nat) : Prop where
  size_eq : w'.slots.size = w.slots.size
  slot_eq : ∀ i ∉ changed, w'.slot i = w.slot i
  rest_eq : w' = { w with slots := w'.slots }

theorem Updates.refl (w : Workspace α) : w.Updates w [] := ⟨rfl, fun _ _ => rfl, rfl⟩

theorem Updates.modifySlot {changed : List Nat} (h : (w.modifySlot i f).Updates w' changed) :
    w.Updates w' (i :: changed) := by
  refine ⟨?_, ?_, ?_⟩
  · rw [h.size_eq, Workspace.modifySlot, Array.size_modify]
  · intro j hj
    rw [List.mem_cons, not_or] at hj
    rw [h.slot_eq j hj.2, slot_modifySlot_of_ne (Ne.symm hj.1)]
  · have hrest := h.rest_eq
    rw [hrest]
    rfl

end Workspace

namespace Slot

variable {α : Type} {p : Slot α} {s : Extents} {type : DataType}

/-- New values of these extents and this type are accepted. -/
def Accepts (p : Slot α) (s : Extents) (type : DataType) : Prop :=
  ∃ resolved, p.checkCompatible s type = .ok resolved

theorem accepts_iff :
    p.Accepts s type ↔ ∀ c, p.content = some c → c.data.extents = s ∧ c.type = type := by
  unfold Accepts checkCompatible
  cases p.content with
  | none => simp
  | some c =>
    by_cases hs : c.data.extents = s
    · by_cases ht : c.type = type <;> simp [hs, ht]
    · simp [hs]

/-- Whether the array of the parameter collects a gradient, or will when there is one. -/
def collects (p : Slot α) : Bool := (p.content.map (·.requiresGrad)).getD p.trainable

theorem checkCompatible_of_accepts (h : p.Accepts s type) :
    p.checkCompatible s type = .ok p.isResolved := by
  have hiff := accepts_iff.mp h
  unfold checkCompatible Slot.isResolved
  cases hc : p.content with
  | none => rfl
  | some c =>
    obtain ⟨hextents, htype⟩ := hiff c hc
    simp [hextents, htype]

/-- New values take the place of the old ones, or are the first. -/
theorem setArray_of_accepts [Scalar α] {data : DenseArray α} (h : p.Accepts data.extents type) :
    p.setArray type data = .ok { p with content := some (.ofArray type data p.collects) } := by
  have hiff := accepts_iff.mp h
  unfold setArray
  rw [checkCompatible_of_accepts h, collects]
  cases hc : p.content with
  | none =>
    rw [isResolved, hc]
    rfl
  | some c =>
    obtain ⟨-, rfl⟩ := hiff c hc
    rw [isResolved, hc]
    rfl

theorem setArray_ok [Scalar α] {p' : Slot α} {data : DenseArray α}
    (h : p.setArray type data = .ok p') :
    p.Accepts data.extents type ∧
      p' = { p with content := some (.ofArray type data p.collects) } := by
  cases hcheck : p.checkCompatible data.extents type with
  | error e =>
    rw [setArray, hcheck] at h
    cases h
  | ok resolved =>
    have haccepts : p.Accepts data.extents type := ⟨resolved, hcheck⟩
    exact ⟨haccepts, Except.ok.inj (h.symm.trans (setArray_of_accepts haccepts))⟩

end Slot

namespace ParameterList

open Workspace

variable {w : Workspace Single} {staged : List Staged}

/-- One step of `commit`. -/
def storeOne (s : Staged) : Run Single Unit := do
  let p ← Run.check (((← get).slot s.slot).setArray s.type s.data)
  modify (·.modifySlot s.slot fun _ => p)

theorem storeOne_apply (s : Staged) (w : Workspace Single) :
    storeOne s w =
      match (w.slot s.slot).setArray s.type s.data with
      | .ok p => (.ok (), w.modifySlot s.slot fun _ => p)
      | .error e => (.error e, w) := by
  unfold storeOne
  rw [Run.bind_apply, Run.get_apply]
  dsimp only
  rw [Run.bind_apply, Run.check_apply]
  cases (w.slot s.slot).setArray s.type s.data <;> rfl

theorem commit_cons (s : Staged) (staged : List Staged) :
    commit (s :: staged) = storeOne s >>= fun _ => commit staged := rfl

/-- The slot as it is with the new values. -/
def Staged.store (s : Staged) (p : Slot Single) : Slot Single :=
  { p with content := some (.ofArray s.type s.data p.collects) }

/-- The slot is there and accepts the new values. -/
structure Staged.Fits (s : Staged) (w : Workspace Single) : Prop where
  slot_lt : s.slot < w.slots.size
  accepts : (w.slot s.slot).Accepts s.data.extents s.type

theorem commit_of_fits (hslots : (staged.map (·.slot)).Nodup) (hfits : ∀ s ∈ staged, s.Fits w) :
    ∃ w', commit staged w = (.ok (), w') ∧ w.Updates w' (staged.map (·.slot)) ∧
      ∀ s ∈ staged, w'.slot s.slot = s.store (w.slot s.slot) := by
  -- The others are checked against the workspace in which the first one is already stored.
  induction staged generalizing w with
  | nil => exact ⟨w, rfl, .refl w, by simp⟩
  | cons s staged ih =>
    obtain ⟨hs, hslots⟩ := List.nodup_cons.mp hslots
    obtain ⟨hfit, hfits⟩ := List.forall_mem_cons.mp hfits
    have hne : ∀ t ∈ staged, s.slot ≠ t.slot := by
      intro t ht heq
      exact hs (List.mem_map.mpr ⟨t, ht, heq.symm⟩)
    let middle := w.modifySlot s.slot fun _ => s.store (w.slot s.slot)
    have hother : ∀ t ∈ staged, middle.slot t.slot = w.slot t.slot := fun t ht =>
      slot_modifySlot_of_ne (hne t ht)
    obtain ⟨w', hrun, hupdates, hstored⟩ := ih (w := middle) hslots fun t ht => by
      refine ⟨?_, ?_⟩
      · simpa [middle, Workspace.modifySlot] using (hfits t ht).slot_lt
      · rw [hother t ht]
        exact (hfits t ht).accepts
    refine ⟨w', ?_, hupdates.modifySlot, ?_⟩
    · rw [commit_cons, Run.bind_apply, storeOne_apply, Slot.setArray_of_accepts hfit.accepts]
      exact hrun
    · refine List.forall_mem_cons.mpr ⟨?_, fun t ht => ?_⟩
      · rw [hupdates.slot_eq s.slot hs]
        exact slot_modifySlot hfit.slot_lt
      · rw [hstored t ht, hother t ht]

end ParameterList

end NeuralNet
