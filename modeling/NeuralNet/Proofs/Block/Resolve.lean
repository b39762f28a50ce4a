import Mathlib.Data.Prod.Basic
import NeuralNet.Proofs.Block.Commit
import NeuralNet.Proofs.Checks
import NeuralNet.Proofs.Extents

/-!
# Giving parameters their first values

Resolving a block has three stages: the extents of all parameters are planned and checked, those
without content are filled one after another, and at last the shapes of the outputs are asked for.
Only the first stage comes before any change.

* `plan_slots`: the plan goes through all parameters in their order;
* `resolveAll_spec`: what filling changes, whether or not it comes to its end;
* `resolve_failure`: a failing call leaves everything just if it does not get as far as to fill a
  parameter;
* `resolve_settles`: a call that succeeds leaves nothing to fill, so that the next one changes
  nothing.
-/

namespace NeuralNet

variable {α : Type}

/-! ## One slot -/

theorem Initializer.extents_fill (s : Extents) (draw : Draw Single) (source : RandomSource) :
    ((fill s draw).run source).1.extents = s := by
  simp only [fill, StateT.run]
  obtain ⟨values, rest⟩ := draw.times s.size source
  cases h : DenseArray.ofList s values with
  | error e => simp [h, DenseArray.full]
  | ok data => simp [h, (DenseArray.ofList_eq_ok.mp h).2.1]

theorem Initializer.extents_fillUniform (s : Extents) (scale : Single) (source : RandomSource) :
    ((fillUniform s scale).run source).1.extents = s := by
  unfold fillUniform
  split
  · rfl
  · exact extents_fill s _ source

theorem Initializer.extents_draw (i : Initializer) (s : Extents) (source : RandomSource) :
    ((i.draw s).run source).1.extents = s := by
  cases i with
  | zeros | ones | constant => rfl
  | uniform | xavierUniform => exact extents_fillUniform s _ source
  | normal | kaimingNormal => exact extents_fill s _ source

namespace Slot

variable {p p' : Slot α} {s : Extents} {type : DataType}

/-- The slot has content of these extents and this type. -/
def Has (p : Slot α) (s : Extents) (type : DataType) : Prop :=
  ∃ c, p.content = some c ∧ c.data.extents = s ∧ c.type = type

/-- The slot without content, and with its first values. -/
def Fills (p p' : Slot α) (s : Extents) (type : DataType) : Prop :=
  p.isResolved = false ∧
    ∃ data : DenseArray α, data.extents = s ∧
      p' = { p with content := some ⟨type, data, none, p.trainable⟩ }

theorem Has.isResolved (h : p.Has s type) : p.isResolved = true := by
  obtain ⟨c, hc, -, -⟩ := h
  simp [Slot.isResolved, hc]

theorem Has.accepts (h : p.Has s type) : p.Accepts s type := by
  obtain ⟨c, hc, hextents, htype⟩ := h
  refine accepts_iff.mpr fun d hd => ?_
  cases hc.symm.trans hd
  exact ⟨hextents, htype⟩

theorem Fills.has (h : p.Fills p' s type) : p'.Has s type := by
  obtain ⟨-, data, hextents, rfl⟩ := h
  exact ⟨_, rfl, hextents, rfl⟩

theorem Accepts.has (h : p.Accepts s type) (hp : p.isResolved = true) : p.Has s type := by
  obtain ⟨c, hc⟩ := Option.isSome_iff_exists.mp hp
  exact ⟨c, hc, accepts_iff.mp h c hc⟩

variable [Scalar α] {fallback : Initializer} {source source' : RandomSource}

theorem resolve_of_has (h : p.Has s type) :
    p.resolve fallback s type source = .ok (p, source) := by
  unfold resolve
  rw [checkCompatible_of_accepts h.accepts, h.isResolved]
  rfl

theorem resolve_of_unresolved (h : p.isResolved = false) :
    p.resolve fallback s type source = do
      let (data, source) ← (p.chooseInitializer fallback).generate s source
      return (p.fill type (data.map Scalar.ofSingle), source) := by
  have hnone : p.content = none := Option.not_isSome_iff_eq_none.mp (Bool.eq_false_iff.mp h)
  unfold resolve checkCompatible
  rw [hnone]
  rfl

/-- A parameter without content is filled just if its initializer is valid. -/
theorem resolve_fills (fallback : Initializer) (s : Extents) (type : DataType)
    (source : RandomSource) (h : p.isResolved = false) :
    (∃ e, (p.chooseInitializer fallback).validate = .error e ∧
        p.resolve fallback s type source = .error e) ∨
      ∃ p' source', (p.chooseInitializer fallback).validate = .ok () ∧
        p.resolve fallback s type source = .ok (p', source') ∧ p.Fills p' s type := by
  rw [resolve_of_unresolved h]
  unfold Initializer.generate
  cases hvalidate : (p.chooseInitializer fallback).validate with
  | error e => exact .inl ⟨e, rfl, rfl⟩
  | ok u =>
    right
    refine ⟨_, _, rfl, rfl, h, _, ?_, rfl⟩
    exact Initializer.extents_draw _ s source

theorem resolve_ok (h : p.resolve fallback s type source = .ok (p', source')) :
    p'.Has s type ∧ (p' = p ∨ p.Fills p' s type) := by
  cases hp : p.isResolved with
  | false =>
    rcases resolve_fills fallback s type source hp with ⟨e, -, herror⟩ | ⟨_, _, -, hok, hfills⟩
    · cases h.symm.trans herror
    · cases h.symm.trans hok
      exact ⟨hfills.has, .inr hfills⟩
  | true =>
    obtain ⟨resolved, hcheck, -⟩ := bind_eq_ok_iff.mp h
    have hhas := Accepts.has ⟨resolved, hcheck⟩ hp
    cases h.symm.trans (resolve_of_has hhas)
    exact ⟨hhas, .inl rfl⟩

end Slot

/-! ## Some slots -/

namespace Workspace

variable {w w' w'' : Workspace α} {ps qs : List (Nat × Extents)} {i : Nat}

/-- Some of these slots are filled, each with the extents that stand beside it and with the type of
the workspace. All else is as it was, but for the source of random numbers. -/
structure Resolves (w w' : Workspace α) (ps : List (Nat × Extents)) : Prop where
  size_eq : w'.slots.size = w.slots.size
  slot : ∀ i, w'.slot i = w.slot i ∨ ∃ s, (i, s) ∈ ps ∧ (w.slot i).Fills (w'.slot i) s w.type
  rest_eq : w' = { w with slots := w'.slots, random := w'.random }

theorem Resolves.type_eq (h : w.Resolves w' ps) : w'.type = w.type := congrArg (·.type) h.rest_eq

theorem Resolves.slot_eq (h : w.Resolves w' ps) (hi : (w.slot i).isResolved = true) :
    w'.slot i = w.slot i := by
  rcases h.slot i with heq | ⟨_, -, hunresolved, -⟩
  · exact heq
  · cases hunresolved.symm.trans hi

theorem Resolves.mono (h : w.Resolves w' ps) (hsub : ∀ p ∈ ps, p ∈ qs) : w.Resolves w' qs := by
  refine ⟨h.size_eq, fun i => (h.slot i).imp_right ?_, h.rest_eq⟩
  rintro ⟨s, hs, hfills⟩
  exact ⟨s, hsub _ hs, hfills⟩

theorem Resolves.refl (w : Workspace α) (ps : List (Nat × Extents)) : w.Resolves w ps :=
  ⟨rfl, fun _ => .inl rfl, rfl⟩

theorem Resolves.trans (h : w.Resolves w' ps) (k : w'.Resolves w'' qs) :
    w.Resolves w'' (ps ++ qs) := by
  refine ⟨k.size_eq.trans h.size_eq, fun i => ?_, ?_⟩
  · rcases k.slot i with heq | ⟨s, hs, hfills⟩
    · rw [heq]
      refine (h.slot i).imp_right ?_
      rintro ⟨s, hs, hfills⟩
      exact ⟨s, List.mem_append_left _ hs, hfills⟩
    · -- what was filled before is not filled again
      rcases h.slot i with heq | ⟨_, -, hfirst⟩
      · rw [heq, h.type_eq] at hfills
        exact .inr ⟨s, List.mem_append_right _ hs, hfills⟩
      · cases hfills.1.symm.trans hfirst.has.isResolved
  · have hrest := k.rest_eq
    rw [h.rest_eq] at hrest
    rw [hrest]

theorem Resolves.of_modifySlot {p : Slot α} {s : Extents} (random : RandomSource)
    (hi : i < w.slots.size) (h : p = w.slot i ∨ (w.slot i).Fills p s w.type) :
    w.Resolves { w.modifySlot i fun _ => p with random } [(i, s)] := by
  refine ⟨Array.size_modify, fun j => ?_, rfl⟩
  by_cases hj : i = j
  · subst hj
    have hslot : (w.modifySlot i fun _ => p).slot i = p := slot_modifySlot hi
    refine h.imp hslot.trans fun hfills => ⟨s, List.mem_singleton_self _, ?_⟩
    exact hslot.symm ▸ hfills
  · exact .inl (slot_modifySlot_of_ne hj)

theorem Resolves.has {s : Extents} {type : DataType} (h : w.Resolves w' ps)
    (hi : (w.slot i).Has s type) : (w'.slot i).Has s type := by
  rw [h.slot_eq hi.isResolved]
  exact hi

end Workspace

namespace Block

open Workspace

variable {b : Block} {inputs : List Shape} {plan : List (Nat × Extents)} {w w' : Workspace α}
  {fallback : Initializer} {i : Nat} {s : Extents} {ps : List (Nat × Extents)}

/-! ## Plans -/

theorem length_inputsAll {bs : List Block} {inputs : List Shape} {others : List (List Shape)}
    (h : inputsAll bs inputs = .ok others) : others.length = bs.length := by
  induction bs generalizing inputs others with
  | nil =>
    cases h
    rfl
  | cons b bs ih =>
    obtain ⟨outputs, -, h⟩ := bind_eq_ok_iff.mp h
    obtain ⟨rest, hrest, h⟩ := bind_eq_ok_iff.mp h
    cases h
    rw [List.length_cons, List.length_cons, ih hrest]

mutual

/-- The plan goes through the parameters in their order. -/
theorem plan_slots : (b : Block) → {inputs : List Shape} → {plan : List (Nat × Extents)} →
    b.plan inputs = .ok plan → plan.map (·.1) = b.slots
  | leaf layer slots, inputs, plan, h => by
    have hall := mapM_eq_ok_iff.mp h
    refine map_eq_map_of_forall₂ hall ?_
    rintro ⟨name, slot⟩ entry hentry
    obtain ⟨s, -, h⟩ := bind_eq_ok_iff.mp hentry
    cases h
    rfl
  | sequential bs, inputs, plan, h => by
    obtain ⟨others, hothers, h⟩ := bind_eq_ok_iff.mp h
    exact planAll_slots 1 bs (length_inputsAll hothers) h

theorem planAll_slots (place : Nat) : (bs : List Block) → {others : List (List Shape)} →
    {plan : List (Nat × Extents)} → others.length = bs.length → planAll bs others = .ok plan →
    plan.map (·.1) = (parametersFrom place bs).map (·.2)
  | [], others, plan, _, h => by
    cases h
    rfl
  | b :: bs, [], plan, hlen, h => by cases hlen
  | b :: bs, inputs :: others, plan, hlen, h => by
    obtain ⟨first, hfirst, h⟩ := bind_eq_ok_iff.mp h
    obtain ⟨rest, hrest, h⟩ := bind_eq_ok_iff.mp h
    cases h
    have hlen : others.length = bs.length := Nat.succ.inj hlen
    rw [List.map_append, plan_slots b hfirst, planAll_slots (place + 1) bs hlen hrest]
    simp [parametersFrom, slots, List.map_map, Function.comp_def]

end

/-- The plan for these inputs, if all slots agree with it. -/
structure Plans (b : Block) (inputs : List Shape) (w : Workspace α)
    (plan : List (Nat × Extents)) : Prop where
  plan_eq : b.plan inputs = .ok plan
  accepts : ∀ p ∈ plan, (w.slot p.1).Accepts p.2 w.type

theorem Plans.slot_lt (h : Plans b inputs w plan) (hvalid : ∀ i ∈ b.slots, i < w.slots.size) :
    ∀ p ∈ plan, p.1 < w.slots.size := by
  rw [← plan_slots b h.plan_eq] at hvalid
  exact List.forall_mem_map.mp hvalid

/-- The part of a plan whose slots have no content. -/
def pending (w : Workspace α) (plan : List (Nat × Extents)) : List (Nat × Extents) :=
  plan.filter fun p => !(w.slot p.1).isResolved

theorem mem_pending {p : Nat × Extents} :
    p ∈ pending w plan ↔ p ∈ plan ∧ (w.slot p.1).isResolved = false := by
  simp [pending]

theorem Plans.pending_lt (h : Plans b inputs w plan) (hvalid : ∀ i ∈ b.slots, i < w.slots.size) :
    ∀ p ∈ pending w plan, p.1 < w.slots.size := fun p hp =>
  h.slot_lt hvalid p (mem_pending.mp hp).1

theorem filterMap_zip_map (f : Nat × Extents → Bool) (plan : List (Nat × Extents)) :
    (plan.zip (plan.map f)).filterMap (fun (entry, done) => if done then none else some entry) =
      plan.filter fun p => !f p := by
  induction plan with
  | nil => rfl
  | cons p plan ih =>
    rw [List.map_cons, List.zip_cons_cons]
    cases hp : f p <;> simp [hp, ih]

/-! ## Filling slot after slot -/

variable [Scalar α]

theorem resolveSlot_apply (fallback : Initializer) (i : Nat) (s : Extents) (w : Workspace α) :
    resolveSlot fallback i s w =
      match (w.slot i).resolve fallback s w.type w.random with
      | .ok (p, random) => (.ok (), { w.modifySlot i fun _ => p with random })
      | .error e => (.error e, w) := by
  unfold resolveSlot
  rw [Run.bind_apply, Run.get_apply]
  dsimp only
  rw [Run.bind_apply, Run.check_apply]
  cases (w.slot i).resolve fallback s w.type w.random <;> rfl

/-- The slot is left with the planned extents, or nothing happens. -/
theorem resolveSlot_spec (fallback : Initializer) (s : Extents) (hi : i < w.slots.size) :
    (∃ e, resolveSlot fallback i s w = (.error e, w)) ∨
      ∃ w', resolveSlot fallback i s w = (.ok (), w') ∧ w.Resolves w' [(i, s)] ∧
        (w'.slot i).Has s w.type := by
  rw [resolveSlot_apply]
  cases hresolve : (w.slot i).resolve fallback s w.type w.random with
  | error e => exact .inl ⟨e, rfl⟩
  | ok r =>
    obtain ⟨p, random⟩ := r
    obtain ⟨hhas, hslot⟩ := Slot.resolve_ok hresolve
    have heq : (w.modifySlot i fun _ => p).slot i = p := slot_modifySlot hi
    exact .inr ⟨_, rfl, .of_modifySlot random hi hslot, heq.symm ▸ hhas⟩

def resolveAll (fallback : Initializer) (ps : List (Nat × Extents)) : Run α Unit :=
  ps.forM fun (i, s) => resolveSlot fallback i s

theorem resolveAll_cons (fallback : Initializer) (p : Nat × Extents) (ps : List (Nat × Extents)) :
    (resolveAll fallback (p :: ps) : Run α Unit) =
      resolveSlot fallback p.1 p.2 >>= fun _ => resolveAll fallback ps :=
  rfl

/-- Slots are filled up to the first failure, or all of them are. -/
theorem resolveAll_spec (fallback : Initializer) (hvalid : ∀ p ∈ ps, p.1 < w.slots.size) :
    ∃ w', w.Resolves w' ps ∧
      ((∃ e, resolveAll fallback ps w = (.error e, w')) ∨
        resolveAll fallback ps w = (.ok (), w') ∧ ∀ p ∈ ps, (w'.slot p.1).Has p.2 w.type) := by
  -- The others are filled in the workspace in which the first one already is, and it stays so: a
  -- slot may stand in the list twice.
  induction ps generalizing w with
  | nil => exact ⟨w, .refl w [], .inr ⟨rfl, fun p hp => by cases hp⟩⟩
  | cons p ps ih =>
    obtain ⟨hp, hvalid⟩ := List.forall_mem_cons.mp hvalid
    rw [resolveAll_cons, Run.bind_apply]
    rcases resolveSlot_spec fallback p.2 hp with ⟨e, herror⟩ | ⟨w₁, hok, hfirst, hhas⟩
    · rw [herror]
      exact ⟨w, .refl w _, .inl ⟨e, rfl⟩⟩
    · rw [hok]
      obtain ⟨w', hothers, hrun⟩ := ih (w := w₁) (by rwa [hfirst.size_eq])
      refine ⟨w', hfirst.trans hothers, hrun.imp_right ?_⟩
      rintro ⟨hrun, hall⟩
      refine ⟨hrun, List.forall_mem_cons.mpr ⟨hothers.has hhas, ?_⟩⟩
      rwa [hfirst.type_eq] at hall

/-! ## Resolving -/

theorem Plans.resolve_eq (h : Plans b inputs w plan) :
    b.resolve fallback inputs w =
      (resolveAll fallback (pending w plan) >>= fun _ => Run.check (b.outputShapes inputs)) w := by
  have hchecks : plan.mapM (fun (i, s) => (w.slot i).checkCompatible s w.type) =
      .ok (plan.map fun p => (w.slot p.1).isResolved) := by
    refine mapM_eq_ok_iff.mpr (List.forall₂_map_right_iff.mpr (List.forall₂_same.mpr ?_))
    exact fun p hp => Slot.checkCompatible_of_accepts (h.accepts p hp)
  unfold resolve
  rw [Run.bind_apply, Run.get_apply]
  dsimp only
  rw [Run.bind_apply, Run.check_apply, h.plan_eq]
  dsimp only
  rw [Run.bind_apply, Run.check_apply, hchecks]
  dsimp only
  rw [filterMap_zip_map]
  rfl

/-- Without a plan nothing happens. -/
theorem resolve_of_not_plans (fallback : Initializer) (h : ∀ plan, ¬Plans b inputs w plan) :
    ∃ e, b.resolve fallback inputs w = (.error e, w) := by
  unfold resolve
  rw [Run.bind_apply, Run.get_apply]
  dsimp only
  rw [Run.bind_apply, Run.check_apply]
  cases hplan : b.plan inputs with
  | error e => exact ⟨e, rfl⟩
  | ok plan =>
    dsimp only
    rw [Run.bind_apply, Run.check_apply]
    cases hchecks : plan.mapM fun (i, s) => (w.slot i).checkCompatible s w.type with
    | error e => exact ⟨e, rfl⟩
    | ok resolved =>
      refine (h plan ⟨hplan, fun p hp => ?_⟩).elim
      obtain ⟨done, -, hdone⟩ := exists_of_mem_left (mapM_eq_ok_iff.mp hchecks) hp
      exact ⟨done, hdone⟩

theorem Plans.resolve_snd (h : Plans b inputs w plan) :
    (b.resolve fallback inputs w).2 = (resolveAll fallback (pending w plan) w).2 := by
  rw [h.resolve_eq, Run.bind_apply]
  rcases resolveAll fallback (pending w plan) w with ⟨_ | _, _⟩ <;> rfl

theorem Plans.resolves (h : Plans b inputs w plan) (hvalid : ∀ i ∈ b.slots, i < w.slots.size) :
    w.Resolves (b.resolve fallback inputs w).2 (pending w plan) := by
  obtain ⟨w', hresolves, hrun⟩ := resolveAll_spec fallback (h.pending_lt hvalid)
  rw [h.resolve_snd]
  rcases hrun with ⟨e, hrun⟩ | ⟨hrun, -⟩ <;> rwa [hrun]

/-! ### Calls that fail -/

/-- A parameter gets filled: all slots agree with the plan, and the first of those without content
has a valid initializer. -/
def Begins (b : Block) (fallback : Initializer) (inputs : List Shape) (w : Workspace α) : Prop :=
  ∃ plan p rest, Plans b inputs w plan ∧ pending w plan = p :: rest ∧
    ((w.slot p.1).chooseInitializer fallback).validate = .ok ()

/-- The first parameter without content decides whether anything is filled. -/
theorem Plans.first {p : Nat × Extents} {rest : List (Nat × Extents)} (h : Plans b inputs w plan)
    (fallback : Initializer) (hvalid : ∀ i ∈ b.slots, i < w.slots.size)
    (hpending : pending w plan = p :: rest) :
    (∃ e, ((w.slot p.1).chooseInitializer fallback).validate = .error e ∧
        (b.resolve fallback inputs w).2 = w) ∨
      ((w.slot p.1).chooseInitializer fallback).validate = .ok () ∧
        ((b.resolve fallback inputs w).2.slot p.1).isResolved = true := by
  have hlt := h.pending_lt hvalid
  rw [hpending] at hlt
  obtain ⟨hp, hlt⟩ := List.forall_mem_cons.mp hlt
  have hunresolved : (w.slot p.1).isResolved = false :=
    (mem_pending.mp (hpending ▸ List.mem_cons_self)).2
  rw [h.resolve_snd, hpending, resolveAll_cons, Run.bind_apply, resolveSlot_apply]
  rcases Slot.resolve_fills fallback p.2 w.type w.random hunresolved with
    ⟨e, hinvalid, herror⟩ | ⟨q, random, hok, hq, hfills⟩
  · rw [herror]
    exact .inl ⟨e, hinvalid, rfl⟩
  · rw [hq]
    let w₁ : Workspace α := { w.modifySlot p.1 fun _ => q with random }
    have hstep : w.Resolves w₁ [p] := .of_modifySlot random hp (.inr hfills)
    have hslot : w₁.slot p.1 = q := slot_modifySlot hp
    rw [← hstep.size_eq] at hlt
    obtain ⟨w', hrest, hrun⟩ := resolveAll_spec fallback hlt
    have hresolved := (hrest.has (hslot.symm ▸ hfills.has)).isResolved
    have hsnd : (resolveAll fallback rest w₁).2 = w' := by
      rcases hrun with ⟨e, hrun⟩ | ⟨hrun, -⟩ <;> rw [hrun]
    exact .inr ⟨hok, hsnd ▸ hresolved⟩

theorem Begins.fills (h : b.Begins fallback inputs w) (hvalid : ∀ i ∈ b.slots, i < w.slots.size) :
    ∃ i ∈ b.slots, (w.slot i).isResolved = false ∧
      ((b.resolve fallback inputs w).2.slot i).isResolved = true := by
  obtain ⟨plan, p, rest, hplan, hpending, hinitializer⟩ := h
  obtain ⟨hp, hunresolved⟩ := mem_pending.mp (hpending ▸ List.mem_cons_self : p ∈ pending w plan)
  rcases hplan.first fallback hvalid hpending with ⟨e, hinvalid, -⟩ | ⟨-, hresolved⟩
  · cases hinvalid.symm.trans hinitializer
  · refine ⟨p.1, ?_, hunresolved, hresolved⟩
    rw [← plan_slots b hplan.plan_eq]
    exact List.mem_map_of_mem hp

theorem resolve_of_not_begins (h : ¬b.Begins fallback inputs w)
    (hvalid : ∀ i ∈ b.slots, i < w.slots.size) : (b.resolve fallback inputs w).2 = w := by
  by_cases hplans : ∃ plan, Plans b inputs w plan
  · obtain ⟨plan, hplan⟩ := hplans
    cases hpending : pending w plan with
    | nil =>
      rw [hplan.resolve_snd, hpending]
      rfl
    | cons p rest =>
      rcases hplan.first fallback hvalid hpending with ⟨e, -, hsame⟩ | ⟨hinitializer, -⟩
      · exact hsame
      · exact (h ⟨plan, p, rest, hplan, hpending, hinitializer⟩).elim
  · obtain ⟨e, herror⟩ := resolve_of_not_plans fallback (not_exists.mp hplans)
    rw [herror]

theorem resolve_resolves (fallback : Initializer) (hvalid : ∀ i ∈ b.slots, i < w.slots.size)
    (hplan : b.plan inputs = .ok plan) : w.Resolves (b.resolve fallback inputs w).2 plan := by
  by_cases hplans : ∃ plan, Plans b inputs w plan
  · obtain ⟨plan', h⟩ := hplans
    cases hplan.symm.trans h.plan_eq
    exact (h.resolves hvalid).mono fun p hp => (mem_pending.mp hp).1
  · obtain ⟨e, herror⟩ := resolve_of_not_plans fallback (not_exists.mp hplans)
    rw [herror]
    exact .refl w plan

/-- A call that fails leaves the workspace as it was just if it does not come to fill a parameter.
What it filled stays filled, as planned, and nothing else changes. -/
theorem resolve_failure {e : Error} (hvalid : ∀ i ∈ b.slots, i < w.slots.size)
    (h : b.resolve fallback inputs w = (.error e, w')) :
    (¬b.Begins fallback inputs w → w' = w) ∧
      (b.Begins fallback inputs w → ∃ i ∈ b.slots, (w.slot i).isResolved = false ∧
        (w'.slot i).isResolved = true) ∧
      ∀ plan, b.plan inputs = .ok plan → w.Resolves w' plan := by
  obtain rfl : (b.resolve fallback inputs w).2 = w' := congrArg Prod.snd h
  exact ⟨fun hbegins => resolve_of_not_begins hbegins hvalid, fun hbegins => hbegins.fills hvalid,
    fun plan hplan => resolve_resolves fallback hvalid hplan⟩

theorem resolve_failure_uniform :
    let b : Block := sequential
      [leaf (.batchNorm 1 Layer.defaultEpsilon Layer.defaultMomentum) [0, 1, 2, 3],
        leaf (.linear 1 false) [4]]
    let w : Workspace Single :=
      { Workspace.seeded 0 with
        slots := #[.declare "gamma" .gamma, .declare "beta" .beta,
          .declare "running_mean" .runningMean, .declare "running_var" .runningVar,
          .declare "weight" .weight] }
    let scale : Single := .ofInt (-1)
    (b.resolve (.uniform scale) [Shape.ofExtents [3]] w).2 = w ∧
      ∃ w', b.resolve (.uniform scale) [Shape.ofExtents [2, 3]] w =
          (.error (.invalidSetting (.uniformScale scale)), w') ∧
        ∃ i ∈ b.slots, (w.slot i).isResolved = false ∧ (w'.slot i).isResolved = true := by
  intro b w scale
  have hrank : (b.resolve (.uniform scale) [Shape.ofExtents [3]] w).1 =
      .error (.invalidArgument (.channelAxis 1 (Shape.ofExtents [3]))) := by decide +kernel
  have hbegins : ¬b.Begins (.uniform scale) [Shape.ofExtents [3]] w := by
    have hplan : b.plan [Shape.ofExtents [3]] =
        .error (.invalidArgument (.channelAxis 1 (Shape.ofExtents [3]))) := by decide +kernel
    rintro ⟨_, _, _, hplans, -⟩
    cases hplan.symm.trans hplans.plan_eq
  refine ⟨(resolve_failure (by decide) (Prod.fst_eq_iff.mp hrank)).1 hbegins, ?_⟩
  have herror : (b.resolve (.uniform scale) [Shape.ofExtents [2, 3]] w).1 =
      .error (.invalidSetting (.uniformScale scale)) := by decide +kernel
  have hrun := Prod.fst_eq_iff.mp herror
  let plan : List (Nat × Extents) := [(0, [3]), (1, [3]), (2, [3]), (3, [3]), (4, [1, 3])]
  have hchecks : ∀ p ∈ plan, (w.slot p.1).checkCompatible p.2 w.type = .ok false := by
    decide +kernel
  have hplans : Plans b [Shape.ofExtents [2, 3]] w plan :=
    ⟨by decide +kernel, fun p hp => ⟨false, hchecks p hp⟩⟩
  exact ⟨_, hrun, (resolve_failure (by decide) hrun).2.1 ⟨_, _, _, hplans, rfl, rfl⟩⟩

/-- No window fits, which shows only after the parameters are filled. -/
theorem resolve_failure_conv :
    let b : Block := leaf (.conv ⟨[3], 1, [1], [0], true, by decide, rfl, rfl, by decide, by decide,
      by decide⟩) [0, 1]
    let w : Workspace Single :=
      { Workspace.seeded 0 with slots := #[.declare "weight" .weight, .declare "bias" .bias] }
    let result := b.resolve .ones [Shape.ofExtents [1, 1, 2]] w
    result.1 = .error (.shapeMismatch "conv1d spatial axis 0" (.words "at least 3 after padding")
        (.count 2)) ∧
      (∀ i ∈ b.slots, (w.slot i).isResolved = false) ∧
      ∀ i ∈ b.slots, (result.2.slot i).isResolved = true := by
  decide +kernel

/-! ### Calls that succeed -/

theorem Plans.resolve_ok {outputs : List Shape} (hplan : Plans b inputs w plan)
    (hvalid : ∀ i ∈ b.slots, i < w.slots.size)
    (h : b.resolve fallback inputs w = (.ok outputs, w')) :
    b.outputShapes inputs = .ok outputs ∧ ∀ p ∈ plan, (w'.slot p.1).Has p.2 w.type := by
  obtain ⟨w₁, hresolves, ⟨e, hrun⟩ | ⟨hrun, hall⟩⟩ :=
    resolveAll_spec fallback (hplan.pending_lt hvalid)
  · rw [hplan.resolve_eq, Run.bind_apply, hrun] at h
    cases h
  · rw [hplan.resolve_eq, Run.bind_apply, hrun] at h
    obtain ⟨houtputs, rfl⟩ := Prod.mk.inj h
    refine ⟨houtputs, fun p hp => ?_⟩
    cases hresolved : (w.slot p.1).isResolved with
    | false => exact hall p (mem_pending.mpr ⟨hp, hresolved⟩)
    | true => exact hresolves.has ((hplan.accepts p hp).has hresolved)

/-- If all slots have what is planned nothing is filled. -/
theorem resolve_of_has (hplan : b.plan inputs = .ok plan)
    (h : ∀ p ∈ plan, (w.slot p.1).Has p.2 w.type) :
    b.resolve fallback inputs w = (b.outputShapes inputs, w) := by
  have hplans : Plans b inputs w plan := ⟨hplan, fun p hp => (h p hp).accepts⟩
  have hnil : pending w plan = [] :=
    List.filter_eq_nil_iff.mpr fun p hp => by simp [(h p hp).isResolved]
  rw [hplans.resolve_eq, hnil]
  rfl

/-- A call that succeeds goes by a plan of all parameters in their order. Afterwards each of them
has the planned extents and the type of the workspace. Nothing else changed but for the source of
random numbers. The call answers the shapes of the outputs. Another call with the same plan and the
same type, whatever its initializer, inputs and source of random numbers, changes nothing. -/
theorem resolve_settles {outputs : List Shape} (hvalid : ∀ i ∈ b.slots, i < w.slots.size)
    (h : b.resolve fallback inputs w = (.ok outputs, w')) :
    ∃ plan, b.plan inputs = .ok plan ∧ plan.map (·.1) = b.slots ∧
      (∀ p ∈ plan, (w'.slot p.1).Has p.2 w.type) ∧ b.isResolved w' = true ∧
      w.Resolves w' plan ∧ b.outputShapes inputs = .ok outputs ∧
      ∀ (fallback' : Initializer) (inputs' : List Shape) (w'' : Workspace α), w''.type = w.type →
        (∀ i ∈ b.slots, w''.slot i = w'.slot i) → b.plan inputs' = .ok plan →
        b.resolve fallback' inputs' w'' = (b.outputShapes inputs', w'') := by
  -- without a plan that all slots agree with the call would have failed
  by_cases hplans : ∃ plan, Plans b inputs w plan
  · obtain ⟨plan, hplan⟩ := hplans
    obtain ⟨houtputs, hhas⟩ := hplan.resolve_ok hvalid h
    have hslots := plan_slots b hplan.plan_eq
    have hresolves := resolve_resolves fallback hvalid hplan.plan_eq
    rw [h] at hresolves
    refine ⟨plan, hplan.plan_eq, hslots, hhas, ?_, hresolves, houtputs, ?_⟩
    · rw [Block.isResolved, ← hslots, List.all_map, List.all_eq_true]
      exact fun p hp => (hhas p hp).isResolved
    · intro fallback' inputs' w'' htype hsame hplan'
      refine resolve_of_has hplan' fun p hp => ?_
      rw [htype, hsame p.1 (hslots ▸ List.mem_map_of_mem hp)]
      exact hhas p hp
  · obtain ⟨e, herror⟩ := resolve_of_not_plans fallback (not_exists.mp hplans)
    cases h.symm.trans herror

theorem resolve_settles_shared :
    let b : Block := sequential [leaf (.linear 1 true) [0, 1],
      sequential [leaf (.embedding 2 1) [2], leaf .flatten []], leaf (.linear 1 true) [0, 1]]
    let w : Workspace Single :=
      { Workspace.seeded 0 with
        slots := #[.declare "weight" .weight, .declare "bias" .bias, .declare "weight" .weight] }
    let two := Shape.ofExtents [2, 1]
    let five := Shape.ofExtents [5, 1]
    ∃ w', b.resolve .ones [two] w = (.ok [two], w') ∧ b.isResolved w' = true ∧
      b.resolve .xavierUniform [five] w' = (.ok [five], w') := by
  intro b w two five
  have hok : (b.resolve .ones [two] w).1 = .ok [two] := by decide +kernel
  have hrun := Prod.fst_eq_iff.mp hok
  obtain ⟨plan, hplan, -, -, hresolved, hresolves, -, hagain⟩ := resolve_settles (by decide) hrun
  have hsame : b.plan [five] = b.plan [two] := by decide +kernel
  have houtputs : b.outputShapes [five] = .ok [five] := by decide +kernel
  refine ⟨_, hrun, hresolved, ?_⟩
  rw [← houtputs]
  exact hagain .xavierUniform _ _ hresolves.type_eq (fun _ _ => rfl) (hsame.trans hplan)

end Block

end NeuralNet
