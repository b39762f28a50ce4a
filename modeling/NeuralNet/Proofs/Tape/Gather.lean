import NeuralNet.Proofs.DenseArray.WayBack
import NeuralNet.Proofs.Tape.Arithmetic

/-!
# Operations that put entries elsewhere

For each of them the relation between an index of the result, an operand and an index of the operand
whose entry stands there; and that every run that succeeds results in the entries that it says.
-/

namespace NeuralNet

/-- What there was is there still, as it was. -/
structure Workspace.Keeps {α : Type} (w w' : Workspace α) : Prop where
  pauses : w'.pauses = w.pauses
  holds : ∀ t, w.holds t = true → w'.holds t = true
  retains : ∀ t, w.holds t = true → w.Retains w' t

namespace Workspace.Keeps

variable {α : Type} {w w' w'' : Workspace α}

theorem refl (w : Workspace α) : w.Keeps w := ⟨rfl, fun _ h => h, fun _ _ => ⟨rfl, rfl, rfl⟩⟩

theorem trans (h : w.Keeps w') (h' : w'.Keeps w'') : w.Keeps w'' := by
  refine ⟨h'.pauses.trans h.pauses, fun t ht => h'.holds t (h.holds t ht), fun t ht => ?_⟩
  have hfirst := h.retains t ht
  have hsecond := h'.retains t (h.holds t ht)
  exact ⟨hsecond.origin.trans hfirst.origin, hsecond.value.trans hfirst.value,
    hsecond.requiresGrad.trans hfirst.requiresGrad⟩

theorem record {op : Operation α} {data : DenseArray α} {y : Tensor}
    (h : Run.record op data w = (.ok y, w')) : w.Keeps w' := by
  refine ⟨?_, fun t ht => ?_, fun t ht => Run.retains_record h ht⟩
  · rw [Run.record_apply] at h
    cases h
    rfl
  · rw [Run.record_apply] at h
    cases h
    cases t with
    | weight i => exact ht
    | node id =>
      have hlt : id < w.nodes.size := of_decide_eq_true ht
      exact decide_eq_true (by rw [Array.size_push]; omega)

end Workspace.Keeps

/-- An operation that puts entries elsewhere, with the handles that it is of. -/
inductive Gathering where
  | reshape (a : Tensor) (target : Extents)
  | permute (a : Tensor) (axes : List Nat)
  | select (a : Tensor) (axis index : Nat)
  | slice (a : Tensor) (start stop : Nat)
  | embedding (ids table : Tensor)
  | concat (parts : List Tensor) (axis : Nat)
  | stack (parts : List Tensor) (axis : Nat)

namespace Gathering

variable {α : Type}

/-- The arrays that entries are taken from. -/
def operands : Gathering → List Tensor
  | reshape a _ | permute a _ | select a _ _ | slice a _ _ | embedding _ a => [a]
  | concat parts _ | stack parts _ => parts

/-- The extents of the result. -/
def extents (w : Workspace α) : Gathering → Extents
  | reshape _ target => target
  | permute a axes => axes.map ((w.value a).extents.getD · 0)
  | select a axis _ => (w.value a).extents.eraseIdx axis
  | slice a start stop => (w.value a).extents.dropLast ++ [stop - start]
  | embedding ids table => (w.value ids).extents ++ [(w.value table).extents.getLastD 0]
  | concat parts axis => ((parts.map w.value).head?.elim [] (·.extents)).set axis
      (DenseArray.lengths axis (parts.map w.value)).sum
  | stack parts axis => ((parts.map w.value).head?.elim [] (·.extents)).insertIdx axis parts.length

section

variable [Scalar α]

def run : Gathering → Run α Tensor
  | reshape a target => a.reshape target
  | permute a axes => a.permute axes
  | select a axis index => a.select axis index
  | slice a start stop => a.slice start stop
  | embedding ids table => ids.embedding table
  | concat parts axis => Tensor.concat parts axis
  | stack parts axis => Tensor.stack parts axis

/-- For index `i` of the result the operand at place `p` is read at index `j`. -/
def Reads (w : Workspace α) : Gathering → List Nat → Nat → List Nat → Prop
  | reshape a target, i, _, j => target.ravel i = (w.value a).extents.ravel j
  | permute _ axes, i, _, j => i = axes.map (j.getD · 0)
  | select _ axis index, i, _, j => j = i.insertIdx axis index
  | slice _ start _, i, _, j => ∃ l k, i = l ++ [k] ∧ j = l ++ [k + start]
  | embedding ids _, i, _, j =>
    ∃ l k c, i = l ++ [k] ∧ j = [c, k] ∧ Scalar.toNat? ((w.value ids).get l) = some c
  | concat parts axis, i, p, j =>
    i = j.modify axis (· + ((DenseArray.lengths axis (parts.map w.value)).take p).sum)
  | stack _ axis, i, p, j => i = j.insertIdx axis p

/-- At index `i` of the result stands the entry of operand `t`, at place `p`, at index `j`. -/
structure Finds (f : Gathering) (w : Workspace α) (i : List Nat) (p : Nat) (t : Tensor)
    (j : List Nat) : Prop where
  operand : f.operands[p]? = some t
  entry : (w.value t).extents.Contains j
  reads : f.Reads w i p j

/-- At every index of the result stands one entry of an operand. -/
structure Gathers (f : Gathering) (w : Workspace α) (y : DenseArray α) : Prop where
  extents : y.extents = f.extents w
  found : ∀ i, y.extents.Contains i → ∃ p t j, f.Finds w i p t j
  unique : ∀ i, y.extents.Contains i → ∀ p t j p' t' j', f.Finds w i p t j → f.Finds w i p' t' j' →
    p = p' ∧ j = j'
  get : ∀ i, y.extents.Contains i → ∀ p t j, f.Finds w i p t j → y.get i = (w.value t).get j

/-! ## Plans -/

/-- What a rearrangement reads is what the operation does. -/
structure Plans (f : Gathering) (w : Workspace α) (a : Tensor) (r : Rearrangement) : Prop where
  operands : f.operands = [a]
  extents : r.extents = f.extents w
  follows : r.Follows (w.value a).extents fun i j => f.Reads w i 0 j
  returns : r.Returns (w.value a).extents

variable {f : Gathering} {w w' : Workspace α} {a y : Tensor} {r : Rearrangement}

theorem Plans.finds_iff {i j : List Nat} {p : Nat} {t : Tensor} (h : f.Plans w a r)
    (hi : r.extents.Contains i) : f.Finds w i p t j ↔ p = 0 ∧ t = a ∧ r.place i = j := by
  have hplace : f.operands[p]? = some t ↔ p = 0 ∧ t = a := by
    rw [h.operands]
    cases p <;> simp [eq_comm]
  constructor
  · rintro ⟨hp, hj, hreads⟩
    obtain ⟨rfl, rfl⟩ := hplace.mp hp
    exact ⟨rfl, rfl, (h.follows.reads i j hi hj).mp hreads⟩
  · rintro ⟨rfl, rfl, rfl⟩
    have hj := h.follows.place i hi
    exact ⟨hplace.mpr ⟨rfl, rfl⟩, hj, (h.follows.reads i _ hi hj).mpr rfl⟩

theorem Plans.gathers (h : f.Plans w a r) : f.Gathers w ((w.value a).rearrange r) := by
  refine ⟨h.extents, fun i hi => ⟨0, a, _, (h.finds_iff hi).mpr ⟨rfl, rfl, rfl⟩⟩, ?_, ?_⟩
  · intro i hi p t j p' t' j' hfinds hfinds'
    obtain ⟨rfl, -, rfl⟩ := (h.finds_iff hi).mp hfinds
    obtain ⟨rfl, -, rfl⟩ := (h.finds_iff hi).mp hfinds'
    exact ⟨rfl, rfl⟩
  · intro i hi p t j hfinds
    obtain ⟨-, rfl, rfl⟩ := (h.finds_iff hi).mp hfinds
    exact DenseArray.get_gather hi _ _

theorem rearrange_ok (plan : Extents → Except Error Rearrangement)
    (h : a.rearrange plan w = (.ok y, w')) : ∃ r, plan (w.value a).extents = .ok r ∧
      Run.record (.rearrange a (w.value a).extents r) ((w.value a).rearrange r) w =
        (.ok y, w') := by
  unfold Tensor.rearrange at h
  rw [Run.bind_of_ok (Run.value_apply a w)] at h
  exact Run.check_bind_ok_iff.mp h

/-- A plan that can be made is carried out. -/
theorem exists_rearrange (plan : Extents → Except Error Rearrangement) {r : Rearrangement}
    (h : plan (w.value a).extents = .ok r) : ∃ t w', a.rearrange plan w = (.ok t, w') ∧
      w.Keeps w' ∧ w'.holds t = true ∧ w'.value t = (w.value a).rearrange r := by
  have hrun : a.rearrange plan w =
      Run.record (.rearrange a (w.value a).extents r) ((w.value a).rearrange r) w := by
    unfold Tensor.rearrange
    rw [Run.bind_of_ok (Run.value_apply a w), h]
    rfl
  have hrecord := Run.record_apply (.rearrange a (w.value a).extents r) ((w.value a).rearrange r) w
  exact ⟨_, _, hrun.trans hrecord, .record hrecord, Run.holds_record hrecord,
    Run.value_record hrecord⟩

theorem embedding_ok {ids : Tensor} (h : ids.embedding a w = (.ok y, w')) :
    ∃ rows width chosen r, (w.value a).extents = [rows, width] ∧
      (w.value ids).toList.mapM (Tensor.rowId rows) = .ok chosen ∧
      Rearrangement.rows chosen.toArray (w.value ids).extents width = .ok r ∧
      Run.record (.rearrange a (w.value a).extents r) ((w.value a).rearrange r) w =
        (.ok y, w') := by
  unfold Tensor.embedding at h
  rw [Run.bind_of_ok (Run.value_apply a w)] at h
  match hextents : (w.value a).extents with
  | [rows, width] =>
    simp only [hextents] at h
    rw [Run.bind_of_ok (Run.value_apply ids w)] at h
    obtain ⟨chosen, hchosen, h⟩ := Run.check_bind_ok_iff.mp h
    obtain ⟨r, hr, hrecord⟩ := Run.check_bind_ok_iff.mp h
    exact ⟨rows, width, chosen, r, rfl, hchosen, hr, hrecord⟩
  | [] | [_] | _ :: _ :: _ :: _ =>
    simp only [hextents] at h
    cases h

/-- What is recorded of an operation on one array. -/
theorem exists_plan (h : f.run w = (.ok y, w')) (hconcat : ∀ parts axis, f ≠ .concat parts axis)
    (hstack : ∀ parts axis, f ≠ .stack parts axis) : ∃ a r, f.Plans w a r ∧
      Run.record (.rearrange a (w.value a).extents r) ((w.value a).rearrange r) w =
        (.ok y, w') := by
  cases f with
  | reshape a target =>
    obtain ⟨r, hr, hrecord⟩ := rearrange_ok (Rearrangement.regroup · target) h
    obtain ⟨hextents, hfollows⟩ := Rearrangement.follows_regroup hr
    exact ⟨a, r, ⟨rfl, hextents, hfollows, Rearrangement.returns_regroup hr⟩, hrecord⟩
  | permute a axes =>
    obtain ⟨r, hr, hrecord⟩ := rearrange_ok (Rearrangement.permute · axes) h
    obtain ⟨hextents, hfollows⟩ := Rearrangement.follows_permute hr
    exact ⟨a, r, ⟨rfl, hextents, hfollows, Rearrangement.returns_permute hr⟩, hrecord⟩
  | select a axis index =>
    obtain ⟨r, hr, hrecord⟩ := rearrange_ok (Rearrangement.select · axis index) h
    obtain ⟨hextents, hfollows⟩ := Rearrangement.follows_select hr
    exact ⟨a, r, ⟨rfl, hextents, hfollows, Rearrangement.returns_select hr⟩, hrecord⟩
  | slice a start stop =>
    obtain ⟨r, hr, hrecord⟩ := rearrange_ok (Rearrangement.slice · start stop) h
    obtain ⟨hextents, hfollows⟩ := Rearrangement.follows_slice hr
    exact ⟨a, r, ⟨rfl, hextents, hfollows, Rearrangement.returns_slice hr⟩, hrecord⟩
  | embedding ids a =>
    obtain ⟨rows, width, chosen, r, hshape, hchosen, hr, hrecord⟩ := embedding_ok h
    obtain ⟨hextents, hfollows⟩ := Rearrangement.follows_rows hchosen hr
    have hreturns := Rearrangement.returns_chosen hchosen hr
    refine ⟨a, r, ⟨rfl, ?_, hshape ▸ hfollows, hshape ▸ hreturns⟩, hrecord⟩
    rw [hextents, extents, hshape]
    rfl
  | concat parts axis => exact absurd rfl (hconcat parts axis)
  | stack parts axis => exact absurd rfl (hstack parts axis)

/-! ## Joined and stacked arrays -/

open DenseArray (Joined lengths moveInto)

section Parts

variable {parts raised : List Tensor} {axis : Nat} {off : Extents} {data : DenseArray α}

theorem concat_ok (h : Tensor.concat parts axis w = (.ok y, w')) :
    ∃ data, DenseArray.concat axis (parts.map w.value) = .ok data ∧
      Run.record (.concat parts axis (lengths axis (parts.map w.value))) data w = (.ok y, w') := by
  unfold Tensor.concat at h
  rw [Run.bind_of_ok (Run.get_apply w)] at h
  exact Run.check_bind_ok_iff.mp h

theorem exists_concat (h : DenseArray.concat axis (parts.map w.value) = .ok data) :
    ∃ t w', Tensor.concat parts axis w = (.ok t, w') ∧ w'.value t = data := by
  have hrecord := Run.record_apply (.concat parts axis (lengths axis (parts.map w.value))) data w
  refine ⟨_, _, ?_, Run.value_record hrecord⟩
  unfold Tensor.concat
  rw [Run.bind_of_ok (Run.get_apply w), h]
  exact hrecord

omit [Scalar α] in
theorem getElem?_values {p : Nat} {t : Tensor} (hp : parts[p]? = some t) :
    (parts.map w.value)[p]? = some (w.value t) := by
  rw [List.getElem?_map, hp, Option.map_some]

theorem gathers_concat (h : Joined axis (parts.map w.value) off data) (hne : parts ≠ []) :
    (concat parts axis).Gathers w data := by
  refine ⟨?_, fun i hi => ?_, fun i hi p t j p' t' j' hfinds hfinds' => ?_,
    fun i hi p t j hfinds => ?_⟩
  · obtain ⟨first, rest, rfl⟩ := List.exists_cons_of_ne_nil hne
    have hfirst := h.part (w.value first) List.mem_cons_self
    have hset : (w.value first).extents.set axis (lengths axis ((first :: rest).map w.value)).sum =
        off.insertIdx axis (lengths axis ((first :: rest).map w.value)).sum := by
      rw [hfirst, Extents.set_insertIdx _ _ h.axis_le]
    exact h.extents.trans hset.symm
  · obtain ⟨p, x, j, hp, hj, rfl⟩ := h.exists_moveInto hi
    rw [List.getElem?_map, Option.map_eq_some_iff] at hp
    obtain ⟨t, hp, rfl⟩ := hp
    exact ⟨p, t, j, hp, hj, rfl⟩
  · have heq : moveInto axis (parts.map w.value) p j = moveInto axis (parts.map w.value) p' j' :=
      hfinds.reads.symm.trans hfinds'.reads
    exact h.moveInto_inj (getElem?_values hfinds.operand) (getElem?_values hfinds'.operand)
      hfinds.entry hfinds'.entry heq
  · have hreads : i = moveInto axis (parts.map w.value) p j := hfinds.reads
    rw [hreads]
    exact h.get_moveInto (getElem?_values hfinds.operand) hfinds.entry

/-- What stands on the tape once every part was reshaped. -/
structure Raised (axis : Nat) (w w₁ : Workspace α) (parts raised : List Tensor) : Prop where
  keeps : w.Keeps w₁
  size : w₁.nodes.size = w.nodes.size + parts.length
  nodes : raised = (List.range parts.length).map fun p => .node (w.nodes.size + p)
  part : ∀ p t, parts[p]? = some t → ∃ r, axis ≤ (w.value t).extents.length ∧
    Rearrangement.regroup (w.value t).extents ((w.value t).extents.insertIdx axis 1) = .ok r ∧
    w₁.value (.node (w.nodes.size + p)) = (w.value t).rearrange r ∧
    w₁.requiresGrad (.node (w.nodes.size + p)) = (w.pauses == 0 && w.requiresGrad t) ∧
    w₁.origin (.node (w.nodes.size + p)) = if w.pauses == 0 && w.requiresGrad t then
      some (.rearrange t (w.value t).extents r) else none

theorem raise_ok (h : Run.raise axis a w = (.ok y, w')) : ∃ r, axis ≤ (w.value a).extents.length ∧
    Rearrangement.regroup (w.value a).extents ((w.value a).extents.insertIdx axis 1) = .ok r ∧
    Run.record (.rearrange a (w.value a).extents r) ((w.value a).rearrange r) w = (.ok y, w') := by
  unfold Run.raise at h
  rw [Run.bind_of_ok (Run.value_apply a w)] at h
  split at h
  · rename_i haxis
    obtain ⟨r, hr, hrecord⟩ := rearrange_ok
      (Rearrangement.regroup · ((w.value a).extents.insertIdx axis 1)) h
    exact ⟨r, haxis, hr, hrecord⟩
  · cases h

theorem raised_of_mapM (hheld : ∀ t ∈ parts, w.holds t = true)
    (h : parts.mapM (Run.raise axis) w = (.ok raised, w')) : Raised axis w w' parts raised := by
  induction parts generalizing w raised with
  | nil =>
    cases h
    exact ⟨.refl _, rfl, rfl, fun p t hp => nomatch hp⟩
  | cons t parts ih =>
    obtain ⟨ht, hheld⟩ := List.forall_mem_cons.mp hheld
    rw [List.mapM_cons] at h
    obtain ⟨b, w₁, hfirst, h⟩ := Run.bind_ok_iff.mp h
    obtain ⟨bs, w₂, hrest, h⟩ := Run.bind_ok_iff.mp h
    cases h
    obtain ⟨r, haxis, hr, hrecord⟩ := raise_ok hfirst
    have hkeeps := Workspace.Keeps.record hrecord
    obtain ⟨rfl, hsize⟩ := Run.node_of_record hrecord
    have hraised := ih (fun t ht => hkeeps.holds t (hheld t ht)) hrest
    have hnode := hraised.keeps.retains _ (Run.holds_record hrecord)
    refine ⟨hkeeps.trans hraised.keeps, ?_, ?_, fun p t' hp => ?_⟩
    · rw [hraised.size, hsize, List.length_cons]
      omega
    · rw [hraised.nodes, hsize, List.length_cons, List.range_succ_eq_map, List.map_cons,
        List.map_map]
      refine congrArg _ (List.map_congr_left fun p _ => ?_)
      rw [Function.comp_apply, Nat.add_assoc, Nat.add_comm 1]
    · cases p with
      | zero =>
        cases hp
        have hwants := Run.requiresGrad_record hrecord
        refine ⟨r, haxis, hr, hnode.value.trans (Run.value_record hrecord),
          hnode.requiresGrad.trans (hwants.trans ?_), hnode.origin.trans ?_⟩
        · simp [Operation.inputs]
        · rw [Run.origin_record_eq hrecord, hwants]
          simp [Operation.inputs]
      | succ p =>
        have ht' := hkeeps.retains t' (hheld t' (List.mem_of_getElem? hp))
        have hpart := hraised.part p t' hp
        rw [ht'.value, ht'.requiresGrad, hkeeps.pauses, hsize, Nat.add_assoc,
          Nat.add_comm 1] at hpart
        exact hpart

section Stacked

variable {w₁ : Workspace α} {t : Tensor} {p : Nat} {i j : List Nat}

theorem Raised.node (h : Raised axis w w₁ parts raised) (hp : parts[p]? = some t) :
    raised[p]? = some (.node (w.nodes.size + p)) := by
  obtain ⟨hlt, -⟩ := List.getElem?_eq_some_iff.mp hp
  rw [h.nodes, List.getElem?_map, List.getElem?_range hlt, Option.map_some]

theorem Raised.length (h : Raised axis w w₁ parts raised) : raised.length = parts.length := by
  rw [h.nodes, List.length_map, List.length_range]

/-- A reshaped part is the part with an axis of extent 1. -/
theorem Raised.get (h : Raised axis w w₁ parts raised) (hp : parts[p]? = some t) :
    axis ≤ (w.value t).extents.length ∧
      (w₁.value (.node (w.nodes.size + p))).extents = (w.value t).extents.insertIdx axis 1 ∧
      ∀ j, (w.value t).extents.Contains j →
        (w₁.value (.node (w.nodes.size + p))).get (j.insertIdx axis 0) = (w.value t).get j := by
  obtain ⟨r, haxis, hr, hvalue, -⟩ := h.part p t hp
  obtain ⟨hextents, hfollows⟩ := Rearrangement.follows_regroup hr
  rw [hvalue]
  refine ⟨haxis, hextents, fun j hj => ?_⟩
  refine DenseArray.get_rearrange hfollows ?_ hj ?_
  · rw [hextents]
    exact Extents.contains_insertIdx haxis hj Nat.one_pos
  · exact Extents.ravel_insertIdx haxis (Extents.length_of_contains hj)

theorem Raised.extents_eq (h : Raised axis w w₁ parts raised)
    (hjoined : Joined axis (raised.map w₁.value) off data) (hp : parts[p]? = some t) :
    (w.value t).extents = off := by
  have hpart := hjoined.part _ (List.mem_of_getElem? (getElem?_values (w := w₁) (h.node hp)))
  rw [(h.get hp).2.1] at hpart
  have herase := congrArg (List.eraseIdx · axis) hpart
  simpa only [List.eraseIdx_insertIdx_self] using herase

theorem Raised.lengths_eq (h : Raised axis w w₁ parts raised) :
    lengths axis (raised.map w₁.value) = List.replicate parts.length 1 := by
  refine List.eq_replicate_iff.mpr ⟨?_, fun n hn => ?_⟩
  · rw [lengths, List.length_map, List.length_map, h.length]
  · rw [lengths, List.map_map, h.nodes, List.map_map] at hn
    obtain ⟨p, hp, rfl⟩ := List.mem_map.mp hn
    have hp := List.getElem?_eq_getElem (List.mem_range.mp hp)
    obtain ⟨haxis, hextents, -⟩ := h.get hp
    simp only [Function.comp_apply, hextents]
    exact DenseArray.getD_insertIdx 1 haxis

/-- Part `p` goes to index `p` of the new axis. -/
theorem Raised.moveInto_eq (h : Raised axis w w₁ parts raised) (hp : parts[p]? = some t)
    (hj : (w.value t).extents.Contains j) :
    moveInto axis (raised.map w₁.value) p (j.insertIdx axis 0) = j.insertIdx axis p := by
  obtain ⟨hlt, -⟩ := List.getElem?_eq_some_iff.mp hp
  have haxis : axis ≤ j.length := Extents.length_of_contains hj ▸ (h.get hp).1
  rw [moveInto, h.lengths_eq, List.take_replicate, Nat.min_eq_left (Nat.le_of_lt hlt),
    List.sum_replicate_nat, Nat.mul_one, modify_insertIdx haxis, Nat.zero_add]

theorem Raised.gathers (h : Raised axis w w₁ parts raised) (hne : parts ≠ [])
    (hjoined : Joined axis (raised.map w₁.value) off data) :
    (stack parts axis).Gathers w data := by
  have hextents : data.extents = off.insertIdx axis parts.length := by
    rw [hjoined.extents, h.lengths_eq, List.sum_replicate_nat, Nat.mul_one]
  have hoff : ∀ {p t}, parts[p]? = some t → (w.value t).extents = off := h.extents_eq hjoined
  refine ⟨?_, fun i hi => ?_, fun i hi p t j p' t' j' hfinds hfinds' => ?_,
    fun i hi p t j hfinds => ?_⟩
  · obtain ⟨first, rest, rfl⟩ := List.exists_cons_of_ne_nil hne
    have hfirst := hoff (p := 0) (t := first) rfl
    rw [hextents, ← hfirst]
    rfl
  · rw [hextents] at hi
    obtain ⟨l, p, rfl, hl, hp⟩ := Extents.exists_of_contains_insertIdx hjoined.axis_le hi
    have hp := List.getElem?_eq_getElem hp
    exact ⟨p, _, l, hp, (hoff hp).symm ▸ hl, rfl⟩
  · have heq : j.insertIdx axis p = j'.insertIdx axis p' := hfinds.reads.symm.trans hfinds'.reads
    have hlen := Extents.length_of_contains hfinds.entry
    have hlen' := Extents.length_of_contains hfinds'.entry
    have herase := congrArg (List.eraseIdx · axis) heq
    have hplace := congrArg (List.getD · axis 0) heq
    simp only [List.eraseIdx_insertIdx_self] at herase
    simp only [DenseArray.getD_insertIdx p (hlen ▸ (h.get hfinds.operand).1),
      DenseArray.getD_insertIdx p' (hlen' ▸ (h.get hfinds'.operand).1)] at hplace
    exact ⟨hplace, herase⟩
  · have hreads : i = j.insertIdx axis p := hfinds.reads
    obtain ⟨haxis, hraised, hget⟩ := h.get hfinds.operand
    have hj := Extents.contains_insertIdx haxis hfinds.entry Nat.one_pos
    have hmoved := hjoined.get_moveInto (getElem?_values (h.node hfinds.operand)) (hraised ▸ hj)
    rw [h.moveInto_eq hfinds.operand hfinds.entry] at hmoved
    rw [hreads, hmoved, hget j hfinds.entry]

end Stacked

end Parts

theorem concat_parts_ne {parts : List Tensor} {axis : Nat} {data : DenseArray α}
    (h : DenseArray.concat axis (parts.map w.value) = .ok data) : parts ≠ [] := by
  rintro rfl
  cases h

theorem stack_ok {parts : List Tensor} {axis : Nat} (hheld : ∀ t ∈ parts, w.holds t = true)
    (h : Tensor.stack parts axis w = (.ok y, w')) : ∃ raised w₁ data off,
      Raised axis w w₁ parts raised ∧ parts ≠ [] ∧ Joined axis (raised.map w₁.value) off data ∧
      data.extents.addressable = true ∧
      Run.record (.concat raised axis (lengths axis (raised.map w₁.value))) data w₁ =
        (.ok y, w') := by
  rw [Run.stack_eq] at h
  obtain ⟨raised, w₁, hfirst, hconcat⟩ := Run.bind_ok_iff.mp h
  obtain ⟨data, hdata, hrecord⟩ := concat_ok hconcat
  have hraised := raised_of_mapM hheld hfirst
  obtain ⟨off, hjoined, hroom⟩ := DenseArray.joined_of_concat hdata
  refine ⟨raised, w₁, data, off, hraised, ?_, hjoined, hroom, hrecord⟩
  rintro rfl
  exact concat_parts_ne hdata (List.length_eq_zero_iff.mp hraised.length)

/-- At every index of a result stands the entry of an operand that is meant to be there. -/
theorem gathers_of_run (hheld : ∀ t ∈ f.operands, w.holds t = true)
    (h : f.run w = (.ok y, w')) : f.Gathers w (w'.value y) := by
  cases f
  case concat parts axis =>
    obtain ⟨data, hdata, hrecord⟩ := concat_ok h
    obtain ⟨off, hjoined, -⟩ := DenseArray.joined_of_concat hdata
    rw [Run.value_record hrecord]
    exact gathers_concat hjoined (concat_parts_ne hdata)
  case stack parts axis =>
    obtain ⟨raised, w₁, data, off, hraised, hne, hjoined, -, hrecord⟩ := stack_ok hheld h
    rw [Run.value_record hrecord]
    exact hraised.gathers hne hjoined
  all_goals
    obtain ⟨a, r, hplan, hrecord⟩ := exists_plan h nofun nofun
    rw [Run.value_record hrecord]
    exact hplan.gathers

end

end Gathering

end NeuralNet
