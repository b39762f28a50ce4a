import NeuralNet.Proofs.Tape.OnTop
import NeuralNet.Proofs.Tape.Paths

/-!
# What stands behind a handle

An array is replaced behind its own handle and behind no other. A result stands behind a new handle,
and what was there before stays.
-/

namespace NeuralNet

namespace Workspace

variable {α : Type} {w : Workspace α} {t u : Tensor} {a : DenseArray α}

theorem value_setValue_self (h : w.holds t = true) : (w.setValue t a).value t = a := by
  cases t with
  | weight i =>
    obtain ⟨c, hc⟩ := Option.isSome_iff_exists.mp h
    obtain ⟨p, hp, hcontent⟩ := Option.bind_eq_some_iff.mp hc
    simp [setValue, modifyContent, modifySlot, value, content?, Array.getElem?_modify, hp, hcontent]
  | node id =>
    have hlt : id < w.nodes.size := of_decide_eq_true h
    simp [setValue, modifyNode, value, Array.getElem_modify, hlt]

theorem value_setValue_of_ne (h : u ≠ t) : (w.setValue t a).value u = w.value u := by
  cases t with
  | weight i =>
    cases u with
    | node id => rfl
    | weight j =>
      have hij : i ≠ j := fun hij => h (congrArg Tensor.weight hij.symm)
      simp [setValue, modifyContent, modifySlot, value, content?, Array.getElem?_modify, hij]
  | node i =>
    cases u with
    | weight j => rfl
    | node j =>
      have hij : i ≠ j := fun hij => h (congrArg Tensor.node hij.symm)
      simp [setValue, modifyNode, value, Array.getElem?_modify, hij]

theorem holds_setValue : (w.setValue t a).holds u = w.holds u := by
  cases t with
  | weight i =>
    cases u with
    | node id => rfl
    | weight j =>
      simp only [setValue, modifyContent, modifySlot, holds, content?, Array.getElem?_modify]
      cases w.slots[j]? with
      | none => simp
      | some p => by_cases hij : i = j <;> simp [hij]
  | node i =>
    cases u with
    | weight j => rfl
    | node j => simp [setValue, modifyNode, holds]

theorem requiresGrad_setValue : (w.setValue t a).requiresGrad u = w.requiresGrad u := by
  cases t with
  | weight i =>
    cases u with
    | node id => rfl
    | weight j =>
      simp only [setValue, modifyContent, modifySlot, requiresGrad, content?, Array.getElem?_modify]
      cases w.slots[j]? with
      | none => simp
      | some p => by_cases hij : i = j <;> simp [hij, Function.comp_def]
  | node i =>
    cases u with
    | weight j => rfl
    | node j =>
      simp only [setValue, modifyNode, requiresGrad, Array.getElem?_modify]
      cases w.nodes[j]? with
      | none => simp
      | some n => by_cases hij : i = j <;> simp [hij]

theorem pauses_setValue : (w.setValue t a).pauses = w.pauses := by
  cases t with
  | weight i => rfl
  | node i => rfl

/-- Where there is no array, a vector without entries is read. -/
theorem holds_of_extents {s : Extents} (h : (w.value t).extents = s) (hs : s ≠ [0]) :
    w.holds t = true := by
  subst h
  cases t with
  | weight i =>
    by_contra hnone
    have hcontent : w.content? i = none := Option.not_isSome_iff_eq_none.mp hnone
    apply hs
    rw [value, hcontent]
    rfl
  | node id =>
    by_contra hnone
    have hge : w.nodes[id]? = none :=
      Array.getElem?_eq_none (Nat.not_lt.mp fun hlt => hnone (decide_eq_true hlt))
    apply hs
    rw [value, hge]
    rfl

theorem value_push (node : Node α) (h : w.holds t = true) :
    ({ w with nodes := w.nodes.push node } : Workspace α).value t = w.value t := by
  cases t with
  | weight i => rfl
  | node id =>
    have hlt : id < w.nodes.size := of_decide_eq_true h
    simp only [value]
    rw [Array.getElem?_push_lt hlt, Array.getElem?_eq_getElem hlt]

end Workspace

namespace Run

variable {α : Type} {w w' : Workspace α} {t y : Tensor} {op op' : Operation α} {data : DenseArray α}

theorem value_record (h : record op data w = (.ok y, w')) : w'.value y = data := by
  rw [record_apply] at h
  cases h
  simp [Workspace.value]

theorem value_record_of_holds (h : record op data w = (.ok y, w')) (ht : w.holds t = true) :
    w'.value t = w.value t := by
  rw [record_apply] at h
  cases h
  exact Workspace.value_push _ ht

theorem node_of_record (h : record op data w = (.ok y, w')) :
    y = .node w.nodes.size ∧ w'.nodes.size = w.nodes.size + 1 := by
  rw [record_apply] at h
  cases h
  exact ⟨rfl, Array.size_push _⟩

theorem holds_record (h : record op data w = (.ok y, w')) : w'.holds y = true := by
  rw [record_apply] at h
  cases h
  simp [Workspace.holds]

theorem requiresGrad_record (h : record op data w = (.ok y, w')) :
    w'.requiresGrad y = (w.pauses == 0 && op.inputs.any w.requiresGrad) := by
  rw [record_apply] at h
  cases h
  rw [Workspace.requiresGrad_push, if_pos rfl]

/-- How a result was computed is recorded where it wants a gradient. -/
theorem origin_record_eq (h : record op data w = (.ok y, w')) :
    w'.origin y = if w'.requiresGrad y then some op else none := by
  rw [requiresGrad_record h]
  rw [record_apply] at h
  cases h
  rw [Workspace.origin_push, if_pos rfl]

theorem origin_record (h : record op data w = (.ok y, w')) (hop : w'.origin y = some op') :
    op' = op := by
  rw [origin_record_eq h] at hop
  obtain ⟨-, hop⟩ := Option.ite_none_right_eq_some.mp hop
  exact (Option.some.inj hop).symm

theorem origin_record_of_requiresGrad (h : record op data w = (.ok y, w')) (hpauses : w.pauses = 0)
    (hinput : ∃ t ∈ op.inputs, w.requiresGrad t = true) : w'.origin y = some op := by
  have htracked : (w.pauses == 0 && op.inputs.any w.requiresGrad) = true := by
    simpa [hpauses] using hinput
  rw [origin_record_eq h, requiresGrad_record h, if_pos htracked]

/-- A result is recorded because one of the inputs wants a gradient. -/
theorem exists_input_of_recorded (h : record op data w = (.ok y, w'))
    (hrecorded : (w'.origin y).isSome = true) : ∃ t ∈ op.inputs, w.requiresGrad t = true := by
  obtain ⟨_, hop⟩ := Option.isSome_iff_exists.mp hrecorded
  rw [origin_record_eq h, requiresGrad_record h] at hop
  obtain ⟨hwants, -⟩ := Option.ite_none_right_eq_some.mp hop
  rw [Bool.and_eq_true] at hwants
  exact List.any_eq_true.mp hwants.2

end Run

end NeuralNet
