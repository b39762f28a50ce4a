import NeuralNet.Proofs.Block.Commit
import NeuralNet.Tape.Compute

/-!
# Computing in a context

A context says of some handles which extents their arrays have. Whether an operation succeeds depends
on the extents of its operands, with few exceptions, and it leaves the extents of all arrays that are
there. So an operation extends the context by its result, like a typing rule:

* `Gives`: wherever the context holds the computation succeeds, and an extended context holds;
* `Stuck`: wherever the context holds the computation fails.
-/

namespace NeuralNet

variable {α : Type}

/-- Handles, each with the extents of its array. -/
abbrev Context := List (Tensor × Extents)

namespace Workspace

variable {w : Workspace α} {Γ Δ : Context} {t : Tensor} {a : DenseArray α} {s : Extents}

/-- The array behind a handle, if there is one. -/
def array? (w : Workspace α) : Tensor → Option (DenseArray α)
  | .weight i => (w.slot i).content.map (·.data)
  | .node id => w.nodes[id]?.map (·.data)

/-- The extents of the array behind a handle, if there is one. -/
def extents? (w : Workspace α) : Tensor → Option Extents
  | .weight i => (w.slot i).extents
  | .node id => w.nodes[id]?.map (·.data.extents)

/-- The context holds. -/
def Models (w : Workspace α) (Γ : Context) : Prop := ∀ p ∈ Γ, w.extents? p.1 = some p.2

theorem content?_eq (w : Workspace α) (i : Nat) : w.content? i = (w.slot i).content := by
  unfold content? slot
  rw [Array.getD_eq_getD_getElem?]
  cases w.slots[i]? <;> rfl

theorem array?_eq_some : w.array? t = some a ↔ w.holds t = true ∧ w.value t = a := by
  cases t with
  | weight i =>
    simp only [array?, holds, value, content?_eq]
    cases (w.slot i).content <;> simp
  | node id =>
    simp only [array?, holds, value]
    cases h : w.nodes[id]? with
    | none =>
      have hge := Array.getElem?_eq_none_iff.mp h
      simp [Nat.not_lt.mpr hge]
    | some n =>
      obtain ⟨hlt, -⟩ := Array.getElem?_eq_some_iff.mp h
      simp [hlt]

theorem extents?_eq_map : w.extents? t = (w.array? t).map (·.extents) := by
  cases t with
  | weight i =>
    simp only [extents?, array?, Slot.extents, Option.map_map]
    rfl
  | node id =>
    simp only [extents?, array?, Option.map_map]
    rfl

theorem extents?_eq_some : w.extents? t = some s ↔ w.holds t = true ∧ (w.value t).extents = s := by
  rw [extents?_eq_map, Option.map_eq_some_iff]
  constructor
  · rintro ⟨a, ha, rfl⟩
    obtain ⟨hheld, rfl⟩ := array?_eq_some.mp ha
    exact ⟨hheld, rfl⟩
  · rintro ⟨hheld, rfl⟩
    exact ⟨_, array?_eq_some.mpr ⟨hheld, rfl⟩, rfl⟩

theorem extents_value (h : w.extents? t = some s) : (w.value t).extents = s :=
  (extents?_eq_some.mp h).2

theorem models_cons : w.Models ((t, s) :: Γ) ↔ w.extents? t = some s ∧ w.Models Γ :=
  List.forall_mem_cons

theorem models_append : w.Models (Γ ++ Δ) ↔ w.Models Γ ∧ w.Models Δ := List.forall_mem_append

theorem array?_push (w : Workspace α) (n : Node α) (h : w.array? t = some a) :
    ({ w with nodes := w.nodes.push n } : Workspace α).array? t = some a := by
  cases t with
  | weight i => exact h
  | node id =>
    obtain ⟨m, hm, rfl⟩ := Option.map_eq_some_iff.mp h
    obtain ⟨hlt, -⟩ := Array.getElem?_eq_some_iff.mp hm
    refine Option.map_eq_some_iff.mpr ⟨m, ?_, rfl⟩
    rw [Array.getElem?_push_lt hlt]
    exact (Array.getElem?_eq_some_iff.mp hm).2 ▸ rfl

theorem extents?_push (w : Workspace α) (n : Node α) (h : w.extents? t = some s) :
    ({ w with nodes := w.nodes.push n } : Workspace α).extents? t = some s := by
  rw [extents?_eq_map] at h
  obtain ⟨a, ha, rfl⟩ := Option.map_eq_some_iff.mp h
  rw [extents?_eq_map, array?_push w n ha, Option.map_some]

/-- A new node is known by its number. -/
theorem Models.push (h : w.Models Γ) (n : Node α) :
    ({ w with nodes := w.nodes.push n } : Workspace α).Models
      ((.node w.nodes.size, n.data.extents) :: Γ) := by
  refine models_cons.mpr ⟨?_, fun p hp => extents?_push w n (h p hp)⟩
  simp [extents?]

theorem slot_lt_of_extents {i : Nat} (h : w.extents? (.weight i) = some s) : i < w.slots.size := by
  rcases Nat.lt_or_ge i w.slots.size with hlt | hge
  · exact hlt
  · have hnone : w.slot i = .declare "" .weight := by
      simp [slot, Array.getElem?_eq_none hge]
    rw [extents?, hnone] at h
    cases h

/-- New values of the same extents leave all extents. -/
theorem Models.setValue {i : Nat} {a : DenseArray α} (h : w.Models Γ)
    (ha : w.extents? (.weight i) = some a.extents) : (w.setValue (.weight i) a).Models Γ := by
  rintro ⟨t, s⟩ hp
  have hs := h (t, s) hp
  cases t with
  | node id => exact hs
  | weight j =>
    by_cases hij : i = j
    · subst hij
      obtain ⟨c, hc, -⟩ := Option.map_eq_some_iff.mp ha
      change ((w.modifySlot i _).slot i).extents = _
      rw [slot_modifySlot (slot_lt_of_extents ha), Slot.extents, hc]
      exact ha.symm.trans hs
    · change ((w.modifySlot i _).slot j).extents = _
      rw [slot_modifySlot_of_ne hij]
      exact hs

end Workspace

namespace Run

variable {β γ : Type} {Γ Δ : Context} {x : Run α β} {f : β → Run α γ} {t : Tensor} {s : Extents}
  {K : Except Error γ → Workspace α → Prop} {b : β} {w w' : Workspace α}

theorem bind_of_ok (h : x w = (.ok b, w')) : (x >>= f) w = f b w' := by
  rw [bind_apply, h]

theorem perChannel_of_extents {channels : Nat} {what : String}
    (h : (w.value t).extents = [channels]) :
    t.perChannel channels what w = (.ok (w.value t), w) := by
  unfold Tensor.perChannel
  rw [bind_of_ok (value_apply t w), if_pos h]
  rfl

theorem bind_of_error {e : Error} (h : x w = (.error e, w')) : (x >>= f) w = (.error e, w') := by
  rw [bind_apply, h]

theorem bind_ok_iff {c : γ} : (x >>= f) w = (.ok c, w') ↔
    ∃ b w₁, x w = (.ok b, w₁) ∧ f b w₁ = (.ok c, w') := by
  constructor
  · intro h
    rcases hx : x w with ⟨r, w₁⟩
    cases r with
    | error e =>
      rw [bind_of_error hx] at h
      cases h
    | ok b =>
      rw [bind_of_ok hx] at h
      exact ⟨b, w₁, rfl, h⟩
  · rintro ⟨b, w₁, hx, hf⟩
    rw [bind_of_ok hx, hf]

theorem check_bind_ok_iff {r : Except Error β} {c : γ} : (check r >>= f) w = (.ok c, w') ↔
    ∃ b, r = .ok b ∧ f b w = (.ok c, w') := by
  constructor
  · intro h
    obtain ⟨b, w₁, hcheck, h⟩ := bind_ok_iff.mp h
    rw [check_apply] at hcheck
    obtain ⟨hr, rfl⟩ := Prod.mk.inj hcheck
    exact ⟨b, hr, h⟩
  · rintro ⟨b, rfl, h⟩
    rw [bind_of_ok (check_apply (.ok b) w), h]

theorem forM_cons_ok_iff {f : γ → Run α Unit} {c : γ} {cs : List γ} :
    (c :: cs).forM f w = (.ok (), w') ↔
      ∃ w₁, f c w = (.ok (), w₁) ∧ cs.forM f w₁ = (.ok (), w') := by
  change (f c >>= fun _ => cs.forM f) w = _ ↔ _
  rw [bind_ok_iff]
  constructor
  · rintro ⟨⟨⟩, w₁, h⟩
    exact ⟨w₁, h⟩
  · rintro ⟨w₁, h⟩
    exact ⟨(), w₁, h⟩

theorem forM_append_ok_iff {f : γ → Run α Unit} {cs ds : List γ} :
    (cs ++ ds).forM f w = (.ok (), w') ↔
      ∃ w₁, cs.forM f w = (.ok (), w₁) ∧ ds.forM f w₁ = (.ok (), w') := by
  induction cs generalizing w with
  | nil =>
    constructor
    · intro h
      exact ⟨w, rfl, h⟩
    · rintro ⟨w₁, hnil, h⟩
      cases hnil
      exact h
  | cons c cs ih =>
    rw [List.cons_append, forM_cons_ok_iff]
    simp only [ih, forM_cons_ok_iff]
    constructor
    · rintro ⟨w₁, hc, w₂, hcs, hds⟩
      exact ⟨w₂, ⟨w₁, hc, hcs⟩, hds⟩
    · rintro ⟨w₂, ⟨w₁, hc, hcs⟩, hds⟩
      exact ⟨w₁, hc, w₂, hcs, hds⟩

/-- How the computation ends wherever the context holds. -/
def Ends (Γ : Context) (x : Run α β) (K : Except Error β → Workspace α → Prop) : Prop :=
  ∀ w, w.Models Γ → K (x w).1 (x w).2

/-- A result, with what is known of it beside the context. -/
def Given (Γ : Context) (R : β → Context → Prop) (r : Except Error β) (w : Workspace α) : Prop :=
  ∃ b Δ, r = .ok b ∧ R b Δ ∧ w.Models (Δ ++ Γ)

/-- The computation succeeds; the context is extended by what is known of the result. -/
abbrev Gives (Γ : Context) (x : Run α β) (R : β → Context → Prop) : Prop := Ends Γ x (Given Γ R)

/-- The computation gives an array of these extents. -/
abbrev Makes (Γ : Context) (x : Run α Tensor) (s : Extents) : Prop :=
  Gives Γ x fun t Δ => Δ = [(t, s)]

abbrev Stuck (Γ : Context) (x : Run α β) : Prop := Ends Γ x fun r _ => ∃ e, r = .error e

/-- Handles, one for each of these extents. -/
def Listed (ss : List Extents) (ts : List Tensor) (Δ : Context) : Prop :=
  Δ.map (·.1) = ts ∧ Δ.map (·.2) = ss

theorem Gives.bind {R : β → Context → Prop} (hx : Gives Γ x R)
    (hf : ∀ b Δ, R b Δ → Ends (Δ ++ Γ) (f b) K) : Ends Γ (x >>= f) K := by
  intro w hw
  obtain ⟨b, Δ, hok, hb, hmodels⟩ := hx w hw
  have hrun : x w = (.ok b, (x w).2) := Prod.ext hok rfl
  rw [bind_of_ok hrun]
  exact hf b Δ hb _ hmodels

theorem Makes.bind {x : Run α Tensor} {f : Tensor → Run α γ} (hx : Makes Γ x s)
    (hf : ∀ t, Ends ((t, s) :: Γ) (f t) K) : Ends Γ (x >>= f) K := by
  refine Gives.bind hx fun t Δ hΔ => ?_
  subst hΔ
  exact hf t

theorem Stuck.bind (hx : Stuck Γ x) (f : β → Run α γ) : Stuck Γ (x >>= f) := by
  intro w hw
  obtain ⟨e, herror⟩ := hx w hw
  have hrun : x w = (.error e, (x w).2) := Prod.ext herror rfl
  rw [bind_of_error hrun]
  exact ⟨e, rfl⟩

/-- At the end what was known on the way may be forgotten. -/
theorem Gives.pure {Γ' : Context} {R : β → Context → Prop} (hR : R b Δ) (hsub : Δ ++ Γ ⊆ Γ') :
    Ends Γ' (Pure.pure b : Run α β) (Given Γ R) :=
  fun _ hw => ⟨b, Δ, rfl, hR, fun p hp => hw p (hsub hp)⟩

theorem Gives.listed {Γ' : Context} (Δ : Context) (hsub : Δ ++ Γ ⊆ Γ') :
    Ends Γ' (Pure.pure (Δ.map (·.1)) : Run α (List Tensor)) (Given Γ (Listed (Δ.map (·.2)))) :=
  Gives.pure ⟨rfl, rfl⟩ hsub

theorem Given.forget {Γ' : Context} {R : β → Context → Prop} {r : Except Error β}
    (h : Given Γ' R r w) (hsub : Γ ⊆ Γ') : Given Γ R r w := by
  obtain ⟨b, Δ, hok, hR, hmodels⟩ := h
  obtain ⟨hΔ, hΓ⟩ := Workspace.models_append.mp hmodels
  exact ⟨b, Δ, hok, hR, Workspace.models_append.mpr ⟨hΔ, fun p hp => hΓ p (hsub hp)⟩⟩

theorem Gives.forget {Γ' : Context} {R : β → Context → Prop} (h : Gives Γ' x R) (hsub : Γ ⊆ Γ') :
    Ends Γ' x (Given Γ R) := fun w hw => (h w hw).forget hsub

theorem Stuck.throw (e : Error) : Stuck Γ (throw e : Run α β) := fun _ _ => ⟨e, rfl⟩

theorem Ends.get {f : Workspace α → Run α γ} (h : ∀ w, w.Models Γ → Ends Γ (f w) K) :
    Ends Γ ((get : Run α (Workspace α)) >>= f) K := fun w hw => h w hw w hw

theorem Ends.value {f : DenseArray α → Run α γ} (ht : (t, s) ∈ Γ)
    (h : ∀ a : DenseArray α, a.extents = s → Ends Γ (f a) K) : Ends Γ (value t >>= f) K :=
  fun w hw => h _ (Workspace.extents_value (hw _ ht)) w hw

theorem Ends.check {y : Except Error β} (hy : y = .ok b) (h : Ends Γ (f b) K) :
    Ends Γ (check y >>= f) K := by
  subst hy
  exact h

theorem Stuck.check {y : Except Error β} {e : Error} (hy : y = .error e) :
    Stuck Γ (check y >>= f) := by
  subst hy
  exact fun _ _ => ⟨e, rfl⟩

theorem weight_apply {i : Nat} (h : w.extents? (.weight i) = some s) :
    (weight i : Run α Tensor) w = (.ok (.weight i), w) := by
  obtain ⟨c, hc, -⟩ := Option.map_eq_some_iff.mp h
  have hrequire : (w.slot i).require = .ok c := by
    unfold Slot.require
    rw [hc]
  unfold Run.weight
  rw [bind_apply, get_apply]
  dsimp only
  rw [bind_apply, check_apply, hrequire]
  rfl

theorem Ends.weight {i : Nat} {f : Tensor → Run α γ} (hi : (.weight i, s) ∈ Γ)
    (h : Ends Γ (f (.weight i)) K) : Ends Γ (weight i >>= f) K := by
  intro w hw
  rw [bind_of_ok (weight_apply (hw _ hi))]
  exact h w hw

theorem Ends.draw {d : Draw β} (h : ∀ source, Ends Γ (f (d.run source).1) K) :
    Ends Γ (draw d >>= f) K :=
  fun w hw => h w.random { w with random := (d.run w.random).2 } hw

theorem Ends.setValue {i : Nat} {a : DenseArray α} {f : Unit → Run α γ}
    (hi : (.weight i, s) ∈ Γ) (ha : a.extents = s) (h : Ends Γ (f ()) K) :
    Ends Γ ((modify (·.setValue (.weight i) a) : Run α Unit) >>= f) K := by
  subst ha
  exact fun _ hw => h _ (Workspace.Models.setValue hw (hw _ hi))

theorem Makes.record (op : Operation α) {data : DenseArray α} (h : data.extents = s) :
    Makes Γ (record op data) s := by
  subst h
  exact fun _ hw => ⟨_, _, rfl, rfl, hw.push _⟩

theorem Makes.leaf {data : DenseArray α} (grad : Bool) (h : data.extents = s) :
    Makes Γ (leaf data grad) s := by
  subst h
  exact fun _ hw => ⟨_, _, rfl, rfl, hw.push _⟩

end Run

end NeuralNet
