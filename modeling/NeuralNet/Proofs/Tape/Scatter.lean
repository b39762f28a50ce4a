import Mathlib.Algebra.BigOperators.Intervals
import NeuralNet.Proofs.Tape.Accepted
import NeuralNet.Proofs.Tape.Amounts
import NeuralNet.Proofs.Tape.Inverse

/-!
# Where gradients go back to

An operation that puts entries elsewhere sends a gradient back to where the entries were taken from.
An entry that was read more than once, by a row that is chosen again or in an array that is given at
several places, gets the sum.
-/

namespace NeuralNet

open Finset (range)
open scoped Classical

/-- An entry of the gradient that an array has. -/
def Workspace.gradientAt {α : Type} [Zero α] (u : Workspace α) (t : Tensor) (j : List Nat) : α :=
  (u.gradient t).elim 0 (·.get j)

theorem Workspace.Fits.gradientAt_eq {α : Type} [ExactScalar α] {u : Workspace α} (h : u.Fits)
    {t : Tensor} {s : Extents} (ht : (u.value t).extents = s) (j : List Nat) :
    u.gradientAt t j = u.amount t (s.ravel j) := by
  rw [gradientAt, amount]
  cases hg : u.gradient t with
  | none => rfl
  | some g =>
    have hextents : g.extents = s := (h t g hg).trans ht
    rw [Option.elim_some, Option.elim_some, DenseArray.get, hextents]

namespace Gathering

/-- The nodes that a gradient of the result passes, from the result on. Before they are stacked,
arrays are reshaped. -/
def chain : Gathering → Nat → List Nat
  | stack parts _, id => id :: (List.range parts.length).map (id - 1 - ·)
  | _, id => [id]

variable {α : Type} [ExactScalar α]

/-- A result that a gradient has come to, while everything is as it was when it was computed. -/
structure Awaits (f : Gathering) (id : Nat) (w w' u : Workspace α) (g : DenseArray α) : Prop where
  operands : ∀ t ∈ f.operands,
    (u.value t).extents = (w.value t).extents ∧ u.requiresGrad t = w.requiresGrad t
  retains : ∀ c ∈ f.chain id, w'.Retains u (.node c)
  recorded : (w'.origin (.node id)).isSome = true
  gradient : u.gradient (.node id) = some g
  extents : g.extents = (w'.value (.node id)).extents
  fresh : ∀ c ∈ (f.chain id).tail, u.gradient (.node c) = none
  fits : u.Fits

/-- Every entry of an array that wants a gradient has got what came to the indices of the result
where the entry stands. -/
structure Scatters (f : Gathering) (id : Nat) (w : Workspace α) (g : DenseArray α)
    (u u' : Workspace α) : Prop where
  sameTape : u.SameTape u'
  gradient : ∀ t, u.requiresGrad t = true → (∀ c ∈ (f.chain id).tail, t ≠ .node c) →
    ∀ j, (w.value t).extents.Contains j → u'.gradientAt t j =
      u.gradientAt t j + ∑ i ∈ g.extents.box with ∃ p, f.Finds w i p t j, g.get i

variable {f : Gathering} {w w' u u' : Workspace α} {g y : DenseArray α} {id : Nat}
  {op : Operation α} {t a : Tensor} {r : Rearrangement}

/-- Sums over the places of an operand and what each of them is read for. -/
theorem sum_finds (h : f.Gathers w y) (hg : g.extents = y.extents) (t : Tensor) {j : List Nat}
    (hj : (w.value t).extents.Contains j) :
    ∑ p ∈ range f.operands.length with f.operands[p]? = some t,
        ∑ i ∈ g.extents.box with f.Reads w i p j, g.get i =
      ∑ i ∈ g.extents.box with ∃ p, f.Finds w i p t j, g.get i := by
  have hfinds : ∀ i p, f.Finds w i p t j ↔ f.operands[p]? = some t ∧ f.Reads w i p j :=
    fun i p => ⟨fun h => ⟨h.operand, h.reads⟩, fun h => ⟨h.1, hj, h.2⟩⟩
  calc ∑ p ∈ range f.operands.length with f.operands[p]? = some t,
        ∑ i ∈ g.extents.box with f.Reads w i p j, g.get i
      = ∑ p ∈ range f.operands.length, ∑ i ∈ g.extents.box,
          if f.Finds w i p t j then g.get i else 0 := by
        rw [Finset.sum_filter]
        apply Finset.sum_congr rfl
        intro p _
        by_cases hp : f.operands[p]? = some t
        · simp only [hfinds, hp, true_and, if_true, Finset.sum_filter]
        · simp only [hfinds, hp, false_and, if_false, Finset.sum_const_zero]
    _ = ∑ i ∈ g.extents.box, ∑ p ∈ range f.operands.length,
          if f.Finds w i p t j then g.get i else 0 := Finset.sum_comm
    _ = ∑ i ∈ g.extents.box with ∃ p, f.Finds w i p t j, g.get i := by
        rw [Finset.sum_filter]
        apply Finset.sum_congr rfl
        intro i hi
        have hi : y.extents.Contains i := hg ▸ Extents.mem_box.mp hi
        split
        · rename_i hfound
          obtain ⟨p, hp⟩ := hfound
          obtain ⟨hlt, -⟩ := List.getElem?_eq_some_iff.mp hp.operand
          rw [Finset.sum_eq_single p, if_pos hp]
          · intro q _ hne
            exact if_neg fun hq => hne (h.unique i hi q t j p t j hq hp).1
          · exact fun hnot => absurd (Finset.mem_range.mpr hlt) hnot
        · rename_i hnone
          exact Finset.sum_eq_zero fun p _ => if_neg fun hp => hnone ⟨p, hp⟩

/-- What is added to the gradients, told index by index. -/
theorem scatters_of_adds {touched : Tensor → Prop} {E : Tensor → Nat → α} (hy : f.Gathers w y)
    (hg : g.extents = y.extents)
    (hoperands : ∀ t ∈ f.operands, (u.value t).extents = (w.value t).extents) (hfits : u.Fits)
    (hadds : Run.Adds u u' touched E)
    (htouched : ∀ t, (∀ c ∈ (f.chain id).tail, t ≠ .node c) → touched t → t ∈ f.operands)
    (hE : ∀ t ∈ f.operands, u.requiresGrad t = true → ∀ j, (w.value t).extents.Contains j →
      E t ((w.value t).extents.ravel j) =
        ∑ p ∈ range f.operands.length with f.operands[p]? = some t,
          ∑ i ∈ g.extents.box with f.Reads w i p j, g.get i) :
    f.Scatters id w g u u' := by
  have hsame := hadds.grown.sameTape
  refine ⟨hsame, fun t hwants ht j hj => ?_⟩
  rw [← sum_finds hy hg t hj]
  by_cases hmem : t ∈ f.operands
  · have hextents := hoperands t hmem
    rw [(hadds.grown.fits hfits).gradientAt_eq ((hsame.value t).symm ▸ hextents) j,
      hfits.gradientAt_eq hextents j, hadds.amount t hwants, hE t hmem hwants j hj]
  · have hgradient := hadds.other t fun h => hmem (htouched t ht h)
    have hplace : ∀ p ∈ range f.operands.length, ¬f.operands[p]? = some t := fun p _ hp =>
      hmem (List.mem_of_getElem? hp)
    rw [Finset.filter_false_of_mem hplace, Finset.sum_empty, add_zero, Workspace.gradientAt,
      hgradient]
    rfl

/-- A result that is recorded in one step. -/
theorem scatters_of_pullback (hy : f.Gathers w y) (hg : g.extents = y.extents)
    (hoperands : ∀ t ∈ f.operands, (u.value t).extents = (w.value t).extents) (hfits : u.Fits)
    (hgrad : u.gradient (.node id) = some g) (hop : u.origin (.node id) = some op)
    (hinputs : op.inputs = f.operands)
    (h : ∀ p t, f.operands[p]? = some t → ∃ d, op.pullback u.value p g = .ok d ∧
      d.extents = (w.value t).extents ∧ ∀ j, (w.value t).extents.Contains j →
        d.get j = ∑ i ∈ g.extents.box with f.Reads w i p j, g.get i) :
    ∃ u', Run.passOn id u = (.ok (), u') ∧ f.Scatters id w g u u' := by
  obtain ⟨D, u', hrun, hadds, hD⟩ := Run.exists_adds_of_pullback (P := fun p t d =>
      ∀ j, (w.value t).extents.Contains j → d.entry ((w.value t).extents.ravel j) =
        ∑ i ∈ g.extents.box with f.Reads w i p j, g.get i) hfits hgrad hop fun p t hp => by
    rw [hinputs] at hp
    obtain ⟨d, hd, hextents, hget⟩ := h p t hp
    refine ⟨d, hd, hextents.trans (hoperands t (List.mem_of_getElem? hp)).symm, fun j hj => ?_⟩
    rw [← hget j hj, DenseArray.get, hextents]
  rw [hinputs] at hadds hD
  refine ⟨u', hrun, scatters_of_adds hy hg hoperands hfits hadds (fun t _ ht => ht) ?_⟩
  intro t _ _ j hj
  apply Finset.sum_congr rfl
  intro p hp
  exact hD p t (Finset.mem_filter.mp hp).2 j hj

/-- A gradient is sent back over a plan. -/
theorem Plans.pullback (h : f.Plans w a r) (hg : g.extents = r.extents)
    (value : Tensor → DenseArray α) {p : Nat} (hp : f.operands[p]? = some t) :
    ∃ d, (Operation.rearrange a (w.value a).extents r).pullback value p g = .ok d ∧
      d.extents = (w.value t).extents ∧ ∀ j, (w.value t).extents.Contains j →
        d.get j = ∑ i ∈ g.extents.box with f.Reads w i p j, g.get i := by
  obtain ⟨rfl, rfl⟩ : p = 0 ∧ t = a := by
    rw [h.operands] at hp
    cases p with
    | zero => exact ⟨rfl, (Option.some.inj hp).symm⟩
    | succ p => cases hp
  obtain ⟨d, hd, hextents, hback⟩ := h.returns.exists_back g hg
  exact ⟨d, hd, hextents, fun j hj => h.follows.get_back hg hextents hback hj⟩

/-- A part gets back what stands along it. -/
theorem pullback_concat {parts : List Tensor} {axis : Nat} {off : Extents}
    (h : DenseArray.Joined axis (parts.map w.value) off y) (hg : g.extents = y.extents)
    (value : Tensor → DenseArray α) {p : Nat} (hp : parts[p]? = some t) :
    ∃ d, (Operation.concat parts axis (DenseArray.lengths axis (parts.map w.value))).pullback
        value p g = .ok d ∧
      d.extents = (w.value t).extents ∧ ∀ j, (w.value t).extents.Contains j →
        d.get j = g.get (DenseArray.moveInto axis (parts.map w.value) p j) ∧
        g.extents.Contains (DenseArray.moveInto axis (parts.map w.value) p j) := by
  have hpart := getElem?_values (w := w) hp
  obtain ⟨hextents, hget⟩ := h.get_window hpart hg
  exact ⟨_, rfl, hextents, fun j hj => ⟨hget j hj, hg ▸ h.contains_moveInto hpart hj⟩⟩

theorem sum_eq_get {P : List Nat → Prop} [DecidablePred P] {i : List Nat}
    (hi : g.extents.Contains i) (hP : ∀ i', g.extents.Contains i' → (P i' ↔ i' = i)) :
    ∑ i ∈ g.extents.box with P i, g.get i = g.get i := by
  rw [Finset.filter_congr fun i' hi' => hP i' (Extents.mem_box.mp hi'), Finset.sum_filter,
    Finset.sum_ite_eq' g.extents.box i, if_pos (Extents.mem_box.mpr hi)]

/-- What a gradient of a joined array adds. -/
theorem scatters_concat {parts : List Tensor} {axis : Nat}
    (h : (concat parts axis).run w = (.ok (.node id), w'))
    (hu : (concat parts axis).Awaits id w w' u g) :
    ∃ u', Run.passOn id u = (.ok (), u') ∧ (concat parts axis).Scatters id w g u u' := by
  obtain ⟨data, hdata, hrecord⟩ := concat_ok h
  obtain ⟨off, hjoined, -⟩ := DenseArray.joined_of_concat hdata
  obtain ⟨op, hop⟩ := Option.isSome_iff_exists.mp hu.recorded
  obtain rfl := Run.origin_record hrecord hop
  have hg : g.extents = data.extents := Run.value_record hrecord ▸ hu.extents
  have horigin := (hu.retains id List.mem_cons_self).origin.trans hop
  refine scatters_of_pullback (gathers_concat hjoined (concat_parts_ne hdata)) hg
    (fun t ht => (hu.operands t ht).1) hu.fits hu.gradient horigin rfl fun p t hp => ?_
  obtain ⟨d, hd, hextents, hget⟩ := pullback_concat hjoined hg u.value hp
  refine ⟨d, hd, hextents, fun j hj => ?_⟩
  obtain ⟨hmoved, hcontains⟩ := hget j hj
  rw [hmoved]
  exact (sum_eq_get (P := ((concat parts axis).Reads w · p j)) hcontains fun _ _ => Iff.rfl).symm

/-- What a gradient of a rearranged array adds. -/
theorem scatters_plan (hplan : f.Plans w a r)
    (hrecord : Run.record (.rearrange a (w.value a).extents r) ((w.value a).rearrange r) w =
      (.ok (.node id), w'))
    (hchain : f.chain id = [id]) (hu : f.Awaits id w w' u g) :
    ∃ u', Run.passOn id u = (.ok (), u') ∧ f.Scatters id w g u u' := by
  obtain ⟨op, hop⟩ := Option.isSome_iff_exists.mp hu.recorded
  obtain rfl := Run.origin_record hrecord hop
  have hg : g.extents = r.extents := hu.extents.trans (congrArg _ (Run.value_record hrecord))
  have horigin := (hu.retains id (hchain ▸ List.mem_cons_self)).origin.trans hop
  exact scatters_of_pullback hplan.gathers hg (fun t ht => (hu.operands t ht).1) hu.fits
    hu.gradient horigin hplan.operands.symm fun p t hp => hplan.pullback hg u.value hp

/-! ## Stacked arrays -/

/-- Reshaped, a gradient keeps the places of its entries. -/
theorem exists_bringBack_regroup {source target : Extents}
    (hr : Rearrangement.regroup source target = .ok r) (hg : g.extents = target) :
    ∃ d, g.bringBack source r.back = .ok d ∧ d.extents = source ∧ ∀ k, d.entry k = g.entry k := by
  obtain ⟨⟨-, hsize⟩, rfl⟩ := Rearrangement.regroup_eq_ok_iff.mp hr
  exact DenseArray.exists_regroup (hg ▸ hsize.symm)

section Stacked

variable {c : Nat} {source target : Extents}

/-- What a reshaped array passes on to the array that it was reshaped from. -/
theorem exists_adds_regroup (hr : Rearrangement.regroup source target = .ok r) (hfits : u.Fits)
    (ht : (u.value t).extents = source) (hc : (u.value (.node c)).extents = target)
    (horigin : u.origin (.node c) =
      if u.requiresGrad t then some (.rearrange t source r) else none) :
    ∃ u', Run.passOn c u = (.ok (), u') ∧ Run.Adds u u' (· = t) fun t' k =>
      if t = t' then u.amount (.node c) k else 0 := by
  cases hwants : u.requiresGrad t with
  | false =>
    rw [hwants] at horigin
    refine ⟨u, Run.passOn_of_none (.inr horigin), (Run.Adds.refl u _).mono (fun _ h => h) ?_⟩
    intro t' ht' k
    refine (if_neg ?_).symm
    rintro rfl
    rw [hwants] at ht'
    cases ht'
  | true =>
    rw [hwants] at horigin
    cases hg : u.gradient (.node c) with
    | none =>
      refine ⟨u, Run.passOn_of_none (.inl hg), (Run.Adds.refl u _).mono (fun _ h => h) ?_⟩
      intro t' _ k
      rw [Workspace.amount, hg, Option.elim_none, ite_self]
    | some g =>
      have hextents : g.extents = target := (hfits _ g hg).trans hc
      obtain ⟨d, hd, hback, hentry⟩ := exists_bringBack_regroup hr hextents
      obtain ⟨u', hrun, hadds⟩ := Run.exists_adds (D := fun _ => d) hfits hg
        horigin fun p t' hp => by
          obtain rfl := List.mem_singleton.mp (List.mem_of_getElem? hp)
          exact ⟨hd, hback.trans ht.symm⟩
      refine ⟨u', hrun, hadds.mono (fun t' h => List.mem_singleton.mp h) fun t' _ k => ?_⟩
      change ∑ p ∈ range 1 with [t][p]? = some t', d.entry k = _
      rw [Finset.sum_filter, Finset.sum_range_one, hentry,
        Workspace.amount, hg, Option.elim_some]
      simp only [List.getElem?_cons_zero, Option.some.injEq]

variable {parts raised : List Tensor} {axis p : Nat} {w₁ v : Workspace α} {off : Extents}

/-- A part with an axis of extent 1, as it is reshaped and recorded before the parts are joined. -/
structure Lifted (axis : Nat) (w u : Workspace α) (p : Nat) (t : Tensor) : Prop where
  source : (u.value t).extents = (w.value t).extents
  extents : (u.value (.node (w.nodes.size + p))).extents = (w.value t).extents.insertIdx axis 1
  requiresGrad : u.requiresGrad (.node (w.nodes.size + p)) = u.requiresGrad t
  origin : ∃ r, Rearrangement.regroup (w.value t).extents
      ((w.value t).extents.insertIdx axis 1) = .ok r ∧
    u.origin (.node (w.nodes.size + p)) =
      if u.requiresGrad t then some (.rearrange t (w.value t).extents r) else none

omit [ExactScalar α] in
theorem Lifted.sameTape (h : Lifted axis w u p t) (hsame : u.SameTape v) : Lifted axis w v p t := by
  obtain ⟨hsource, hextents, hwants, r, hr, horigin⟩ := h
  refine ⟨?_, ?_, ?_, r, hr, ?_⟩
  · rw [hsame.value, hsource]
  · rw [hsame.value, hextents]
  · rw [hsame.requiresGrad, hsame.requiresGrad, hwants]
  · rw [hsame.origin, hsame.requiresGrad, horigin]

omit [ExactScalar α] in
/-- The reshaped parts are the nodes right before the joined array, passed from the last one on. -/
theorem mem_chain_tail (axis : Nat) {n c : Nat} (hid : id = n + parts.length) :
    c ∈ ((stack parts axis).chain id).tail ↔ ∃ p t, parts[p]? = some t ∧ c = n + p := by
  refine List.mem_map.trans ⟨?_, ?_⟩
  · rintro ⟨q, hq, rfl⟩
    have hq := List.mem_range.mp hq
    have hlt : parts.length - 1 - q < parts.length := by omega
    exact ⟨_, _, List.getElem?_eq_getElem hlt, by omega⟩
  · rintro ⟨p, t, hp, rfl⟩
    obtain ⟨hlt, -⟩ := List.getElem?_eq_some_iff.mp hp
    exact ⟨parts.length - 1 - p, List.mem_range.mpr (by omega), by omega⟩

theorem sum_chain_tail {n : Nat} (hid : id = n + parts.length) (F : Nat → α) :
    (((stack parts axis).chain id).tail.map F).sum = ∑ p ∈ range parts.length, F (n + p) := by
  change (((List.range parts.length).map (id - 1 - ·)).map F).sum = _
  rw [List.map_map, ← Finset.sum_range_reflect]
  change ∑ q ∈ range parts.length, F (id - 1 - q) = _
  apply Finset.sum_congr rfl
  intro q hq
  have hq := Finset.mem_range.mp hq
  congr 1
  omega

/-- Until the gradient comes back, a reshaped part stays as it was recorded. -/
theorem Raised.lifted (h : Raised axis w w₁ parts raised)
    (hrecord : Run.record op y w₁ = (.ok (.node id), w')) (hpauses : w.pauses = 0)
    (hu : (stack parts axis).Awaits id w w' u g) (hp : parts[p]? = some t) :
    Lifted axis w u p t := by
  obtain ⟨hlt, -⟩ := List.getElem?_eq_some_iff.mp hp
  have hid : id = w.nodes.size + parts.length :=
    (Tensor.node.inj (Run.node_of_record hrecord).1).trans h.size
  have htail := (mem_chain_tail axis hid).mpr ⟨p, t, hp, rfl⟩
  have hheld : w₁.holds (.node (w.nodes.size + p)) = true :=
    decide_eq_true (by rw [h.size]; omega)
  have hrecorded := Run.retains_record hrecord hheld
  have hlater := hu.retains _ (List.mem_of_mem_tail htail)
  obtain ⟨hsource, hkept⟩ := hu.operands t (List.mem_of_getElem? hp)
  obtain ⟨r, -, hr, -, hwants, horigin⟩ := h.part p t hp
  have hpaused : (w.pauses == 0 && w.requiresGrad t) = u.requiresGrad t := by
    rw [hpauses, hkept]
    rfl
  rw [hpaused] at hwants horigin
  refine ⟨hsource, ?_, hlater.requiresGrad.trans (hrecorded.requiresGrad.trans hwants), r, hr,
    hlater.origin.trans (hrecorded.origin.trans horigin)⟩
  rw [hlater.value, hrecorded.value]
  exact (h.get hp).2.1

theorem Raised.part_of_node (h : Raised axis w w₁ parts raised) (hp : raised[p]? = some t) :
    t = .node (w.nodes.size + p) ∧ ∃ t', parts[p]? = some t' := by
  obtain ⟨hlt, -⟩ := List.getElem?_eq_some_iff.mp hp
  have hpart := List.getElem?_eq_getElem (h.length ▸ hlt)
  exact ⟨(Option.some.inj ((h.node hpart).symm.trans hp)).symm, _, hpart⟩

/-- No other part was reshaped to the node of a part. -/
theorem Raised.places_eq (h : Raised axis w w₁ parts raised) (hp : parts[p]? = some t) :
    (range raised.length).filter (raised[·]? = some (.node (w.nodes.size + p))) = {p} := by
  have honly : ∀ q ∈ range raised.length,
      raised[q]? = some (.node (w.nodes.size + p)) ↔ q = p := by
    intro q _
    constructor
    · intro hq
      have hnode := Tensor.node.inj (h.part_of_node hq).1
      omega
    · rintro rfl
      exact h.node hp
  obtain ⟨hlt, -⟩ := List.getElem?_eq_some_iff.mp hp
  rw [Finset.filter_congr honly, Finset.filter_eq', if_pos]
  rw [h.length]
  exact Finset.mem_range.mpr hlt

/-- What goes back to a reshaped part is what stands at the index of the part. -/
theorem Raised.pullback (h : Raised axis w w₁ parts raised)
    (hjoined : DenseArray.Joined axis (raised.map w₁.value) off y) (hg : g.extents = y.extents)
    (value : Tensor → DenseArray α) (hp : parts[p]? = some t) :
    ∃ d, (Operation.concat raised axis (DenseArray.lengths axis (raised.map w₁.value))).pullback
        value p g = .ok d ∧
      d.extents = (w.value t).extents.insertIdx axis 1 ∧
      ∀ j, (w.value t).extents.Contains j → g.extents.Contains (j.insertIdx axis p) ∧
        d.entry ((w.value t).extents.ravel j) = g.get (j.insertIdx axis p) := by
  obtain ⟨haxis, hextents, -⟩ := h.get hp
  obtain ⟨d, hd, hd', hget⟩ := pullback_concat hjoined hg value (h.node hp)
  have hd' := hd'.trans hextents
  refine ⟨d, hd, hd', fun j hj => ?_⟩
  obtain ⟨hmoved, hcontains⟩ := hget (j.insertIdx axis 0)
    (hextents ▸ Extents.contains_insertIdx haxis hj Nat.one_pos)
  rw [h.moveInto_eq hp hj] at hmoved hcontains
  rw [DenseArray.get, hd', Extents.ravel_insertIdx haxis (Extents.length_of_contains hj)] at hmoved
  exact ⟨hcontains, hmoved⟩

/-- The joined array passes to a reshaped part what stands at the index of the part. -/
theorem Raised.exists_adds (h : Raised axis w w₁ parts raised)
    (hjoined : DenseArray.Joined axis (raised.map w₁.value) off y) (hg : g.extents = y.extents)
    (hfits : u.Fits) (hgrad : u.gradient (.node id) = some g)
    (horigin : u.origin (.node id) =
      some (.concat raised axis (DenseArray.lengths axis (raised.map w₁.value))))
    (hlifted : ∀ p t, parts[p]? = some t → Lifted axis w u p t)
    (hnone : ∀ p t, parts[p]? = some t → u.gradient (.node (w.nodes.size + p)) = none) :
    ∃ (u₁ : Workspace α) (E : Tensor → Nat → α), Run.passOn id u = (.ok (), u₁) ∧
      Run.Adds u u₁ (· ∈ raised) E ∧ (∀ t ∉ raised, ∀ k, E t k = 0) ∧
      ∀ p t, parts[p]? = some t → u.requiresGrad t = true → ∀ j, (w.value t).extents.Contains j →
        g.extents.Contains (j.insertIdx axis p) ∧
        u₁.amount (.node (w.nodes.size + p)) ((w.value t).extents.ravel j) =
          g.get (j.insertIdx axis p) := by
  obtain ⟨D, u₁, hrun, hadds, hD⟩ := Run.exists_adds_of_pullback (P := fun p t' d =>
      ∀ t, parts[p]? = some t → ∀ j, (w.value t).extents.Contains j →
        g.extents.Contains (j.insertIdx axis p) ∧
        d.entry ((w.value t).extents.ravel j) = g.get (j.insertIdx axis p))
      hfits hgrad horigin fun p t' hp => by
    obtain ⟨rfl, t, hp⟩ := h.part_of_node hp
    obtain ⟨d, hd, hextents, hentry⟩ := h.pullback hjoined hg u.value hp
    refine ⟨d, hd, hextents.trans (hlifted p t hp).extents.symm, fun t' hp' => ?_⟩
    cases hp.symm.trans hp'
    exact hentry
  refine ⟨u₁, _, hrun, hadds, fun t ht k => ?_, fun p t hp hwants j hj => ?_⟩
  · refine Finset.sum_eq_zero fun p hp => ?_
    exact absurd (List.mem_of_getElem? (Finset.mem_filter.mp hp).2) ht
  · obtain ⟨hcontains, hentry⟩ := hD p _ (h.node hp) t hp j hj
    refine ⟨hcontains, ?_⟩
    rw [hadds.amount _ ((hlifted p t hp).requiresGrad.trans hwants), Workspace.amount,
      hnone p t hp, Option.elim_none, zero_add]
    change ∑ q ∈ range raised.length with raised[q]? = some (.node (w.nodes.size + p)), _ = _
    rw [h.places_eq hp, Finset.sum_singleton, hentry]

variable (axis) in
/-- Every reshaped part passes on what it has got. -/
theorem exists_adds_lifted (hid : id = w.nodes.size + parts.length) (hfits : u.Fits)
    (hold : ∀ c, .node (w.nodes.size + c) ∉ parts)
    (hlifted : ∀ p t, parts[p]? = some t → Lifted axis w u p t) :
    ∃ u', ((stack parts axis).chain id).tail.forM Run.passOn u = (.ok (), u') ∧
      Run.Adds u u' (· ∈ parts) fun t k =>
        ∑ p ∈ range parts.length with parts[p]? = some t,
          u.amount (.node (w.nodes.size + p)) k := by
  have hsweep : ∃ u', ((stack parts axis).chain id).tail.forM Run.passOn u = (.ok (), u') ∧
      Run.Adds u u' (· ∈ parts) fun t k => (((stack parts axis).chain id).tail.map fun c =>
        if parts[c - w.nodes.size]? = some t then u.amount (.node c) k else 0).sum := by
    refine Run.exists_adds_sweep hfits (fun c hc => ?_) fun c hc v hsame hvfits hgrad => ?_
    · obtain ⟨p, -, -, rfl⟩ := (mem_chain_tail axis hid).mp hc
      exact hold p
    · obtain ⟨p, t, hp, rfl⟩ := (mem_chain_tail axis hid).mp hc
      obtain ⟨hsource, hextents, -, r, hr, horigin⟩ := (hlifted p t hp).sameTape hsame
      obtain ⟨v', hrun, hadds⟩ := exists_adds_regroup hr hvfits hsource hextents horigin
      refine ⟨v', hrun, hadds.mono (fun t' ht' => ht' ▸ List.mem_of_getElem? hp) fun t' _ k => ?_⟩
      simp only [Nat.add_sub_cancel_left, hp, Option.some.injEq, Workspace.amount, hgrad]
  obtain ⟨u', hrun, hadds⟩ := hsweep
  refine ⟨u', hrun, hadds.mono (fun _ h => h) fun t _ k => ?_⟩
  rw [sum_chain_tail hid, Finset.sum_filter]
  simp only [Nat.add_sub_cancel_left]

/-- What a gradient of a stacked array adds. -/
theorem scatters_stack (hheld : ∀ t ∈ parts, w.holds t = true)
    (h : (stack parts axis).run w = (.ok (.node id), w'))
    (hu : (stack parts axis).Awaits id w w' u g) :
    ∃ u', ((stack parts axis).chain id).forM Run.passOn u = (.ok (), u') ∧
      (stack parts axis).Scatters id w g u u' := by
  obtain ⟨raised, w₁, data, off, hraised, hne, hjoined, -, hrecord⟩ := stack_ok hheld h
  obtain ⟨op, hop⟩ := Option.isSome_iff_exists.mp hu.recorded
  obtain rfl := Run.origin_record hrecord hop
  have hpauses : w.pauses = 0 := by
    rw [Run.origin_record_eq hrecord, Run.requiresGrad_record hrecord] at hop
    obtain ⟨hwants, -⟩ := Option.ite_none_right_eq_some.mp hop
    rw [hraised.keeps.pauses, Bool.and_eq_true, beq_iff_eq] at hwants
    exact hwants.1
  have hg : g.extents = data.extents := Run.value_record hrecord ▸ hu.extents
  have horigin := (hu.retains id List.mem_cons_self).origin.trans hop
  have hid : id = w.nodes.size + parts.length :=
    (Tensor.node.inj (Run.node_of_record hrecord).1).trans hraised.size
  have hlifted := fun p t => hraised.lifted (p := p) (t := t) hrecord hpauses hu
  have hold : ∀ c, .node (w.nodes.size + c) ∉ parts := by
    intro c hmem
    have hlt : w.nodes.size + c < w.nodes.size := of_decide_eq_true (hheld _ hmem)
    omega
  obtain ⟨u₁, E, hfirst, hadds, hzero, hamount⟩ := hraised.exists_adds hjoined hg hu.fits
    hu.gradient horigin hlifted fun p t hp =>
      hu.fresh _ ((mem_chain_tail axis hid).mpr ⟨p, t, hp, rfl⟩)
  have hsame := hadds.grown.sameTape
  obtain ⟨u', hrest, hadds'⟩ := exists_adds_lifted axis hid (hadds.grown.fits hu.fits)
    hold fun p t hp => (hlifted p t hp).sameTape hsame
  refine ⟨u', Run.forM_cons_ok_iff.mpr ⟨u₁, hfirst, hrest⟩,
    scatters_of_adds (hraised.gathers hne hjoined) hg (fun t ht => (hu.operands t ht).1) hu.fits
      (hadds.trans hadds') ?_ ?_⟩
  · rintro t ht (hmem | hmem)
    · obtain ⟨p, hp⟩ := List.getElem?_of_mem hmem
      obtain ⟨rfl, t', hp'⟩ := hraised.part_of_node hp
      exact absurd rfl (ht _ ((mem_chain_tail axis hid).mpr ⟨p, t', hp', rfl⟩))
    · exact hmem
  · intro t hmem hwants j hj
    have hnot : t ∉ raised := by
      intro hraise
      obtain ⟨p, hp⟩ := List.getElem?_of_mem hraise
      obtain ⟨rfl, -⟩ := hraised.part_of_node hp
      exact hold p hmem
    rw [hzero t hnot, zero_add]
    apply Finset.sum_congr rfl
    intro p hp
    obtain ⟨hcontains, hgot⟩ := hamount p t (Finset.mem_filter.mp hp).2 hwants j hj
    rw [hgot]
    exact (sum_eq_get (P := ((stack parts axis).Reads w · p j)) hcontains fun _ _ => Iff.rfl).symm

end Stacked

/-- A gradient of a recorded result is passed on, and adds to every array what came to the indices
where its entries stand. -/
theorem exists_scatters (hheld : ∀ t ∈ f.operands, w.holds t = true)
    (h : f.run w = (.ok (.node id), w')) (hu : f.Awaits id w w' u g) :
    ∃ u', (f.chain id).forM Run.passOn u = (.ok (), u') ∧ f.Scatters id w g u u' := by
  cases f
  case concat parts axis =>
    obtain ⟨u', hrun, hscatters⟩ := scatters_concat h hu
    exact ⟨u', Run.forM_cons_ok_iff.mpr ⟨u', hrun, rfl⟩, hscatters⟩
  case stack parts axis => exact scatters_stack hheld h hu
  all_goals
    obtain ⟨a, r, hplan, hrecord⟩ := exists_plan h nofun nofun
    obtain ⟨u', hrun, hscatters⟩ := scatters_plan hplan hrecord rfl hu
    exact ⟨u', Run.forM_cons_ok_iff.mpr ⟨u', hrun, rfl⟩, hscatters⟩

/-- What puts entries elsewhere reads, on arguments that go together, one entry of one operand for
every index of its result, and sends a gradient back to the indices it was read from: an entry gets
the sum of what came to the indices where it stands, over all places that its array is given at.
Hence the inverse axes undo a permutation, an index of the new axis selects the array that was
stacked there, and slices of the last axis between successive points are joined to the array they
were cut from. -/
theorem run_gathers_scatters {β : Type} [Scalar β] :
    (∀ (f : Gathering) (w : Workspace β), (∀ t ∈ f.operands, w.holds t = true) →
      ((∃ y w', f.run w = (.ok y, w')) ↔ f.Accepts w) ∧
      ∀ y w', f.run w = (.ok y, w') → f.Gathers w (w'.value y)) ∧
    (∀ (f : Gathering) (w w' : Workspace α) (id : Nat),
      (∀ t ∈ f.operands, w.holds t = true) → f.run w = (.ok (.node id), w') →
      ∀ u g, f.Awaits id w w' u g →
        ∃ u', (f.chain id).forM Run.passOn u = (.ok (), u') ∧ f.Scatters id w g u u') ∧
    (∀ (w w' : Workspace β) (a t : Tensor) (axes inverse : List Nat),
      a.permute axes w = (.ok t, w') → inverse.length = axes.length →
      (∀ k < axes.length, ∃ m, inverse[k]? = some m ∧ axes[m]? = some k) →
      ∃ t' w'', t.permute inverse w' = (.ok t', w'') ∧ w''.value t' = w.value a) ∧
    (∀ (w w' : Workspace β) (parts : List Tensor) (axis p : Nat) (a t : Tensor),
      (∀ t ∈ parts, w.holds t = true) → Tensor.stack parts axis w = (.ok t, w') →
      parts[p]? = some a →
      ∃ t' w'', t.select axis p w' = (.ok t', w'') ∧ w''.value t' = w.value a) ∧
    (∀ (w : Workspace β) (a : Tensor) (s : Extents) (n : Nat) (cuts : List Nat),
      w.holds a = true → (w.value a).extents = s ++ [n] → (w.value a).extents.addressable = true →
      (0 :: (cuts ++ [n])).Pairwise (· ≤ ·) →
      ∃ t w', (do
          let pieces ← (between (0 :: (cuts ++ [n]))).mapM fun (q : Nat × Nat) => a.slice q.1 q.2
          Tensor.concat pieces s.length) w = (.ok t, w') ∧ w'.value t = w.value a) :=
  ⟨fun _ _ hheld => ⟨exists_run_iff hheld, fun _ _ => gathers_of_run hheld⟩,
    fun _ _ _ _ hheld h _ _ => exists_scatters hheld h, fun _ _ _ _ _ _ => permute_back,
    fun _ _ _ _ _ _ _ hheld h => select_of_stack hheld h, fun _ _ _ _ _ => concat_of_slices⟩

section Example

/-- A matrix with one row. -/
def matrix : Workspace ℤ := (Run.leaf ⟨[1, 2], #[5, 7], rfl⟩ true (.seeded 0)).2

/-- A gradient has come to the row behind itself. -/
def returned : Workspace ℤ :=
  (Run.addGradient (.node 1) ⟨[1, 4], #[1, 2, 3, 4], rfl⟩
    ((concat [.node 0, .node 0] 1).run matrix).2).2

theorem awaits_returned : (concat [.node 0, .node 0] 1).Awaits 1 matrix
    ((concat [.node 0, .node 0] 1).run matrix).2 returned ⟨[1, 4], #[1, 2, 3, 4], rfl⟩ := by
  have hrun : ((concat [.node 0, .node 0] 1).run matrix).1 = .ok (.node 1) := by decide +kernel
  have hadd : (Run.addGradient (.node 1) ⟨[1, 4], #[1, 2, 3, 4], rfl⟩
    ((concat [.node 0, .node 0] 1).run matrix).2).1 = .ok () := by decide +kernel
  obtain ⟨data, -, hrecord⟩ := concat_ok (Run.eq_of_fst hrun)
  have hreceived := Run.received_of_addGradient (Run.eq_of_fst hadd)
  have hsame := hreceived.sameTape
  have hfresh := Workspace.gradient_record
    (Workspace.gradient_leaf (Workspace.gradient_seeded 0) ⟨[1, 2], #[5, 7], rfl⟩ true)
    (.concat [.node 0, .node 0] 1 (DenseArray.lengths 1 ([.node 0, .node 0].map matrix.value))) data
  constructor
  · decide +kernel
  · intro c _
    exact ⟨hsame.origin _, hsame.value _, hsame.requiresGrad _⟩
  · decide +kernel
  · decide +kernel
  · decide +kernel
  · exact List.forall_mem_nil _
  · refine hreceived.fits (Workspace.fits_of_fresh fun t => ?_)
    have hafter := congrArg (fun r => r.2.gradient t) hrecord
    exact hafter.symm.trans (hfresh t)

theorem run_gathers_scatters_matrix :
    let join : Gathering := .concat [.node 0, .node 0] 1
    let columns := ((Tensor.node 0).permute [1, 0] matrix).2
    let stacked := (Tensor.stack [.node 0, .node 0] 0 matrix).2
    join.Accepts matrix ∧ join.Gathers matrix ((join.run matrix).2.value (.node 1)) ∧
    (∃ u', [1].forM Run.passOn returned = (.ok (), u') ∧
      join.Scatters 1 matrix ⟨[1, 4], #[1, 2, 3, 4], rfl⟩ returned u') ∧
    (∃ t w', (Tensor.node 1).permute [1, 0] columns = (.ok t, w') ∧
      w'.value t = matrix.value (.node 0)) ∧
    (∃ t w', (Tensor.node 3).select 0 1 stacked = (.ok t, w') ∧
      w'.value t = matrix.value (.node 0)) ∧
    ∃ t w', (do
        let pieces ← (between [0, 1, 2]).mapM fun (q : Nat × Nat) => (Tensor.node 0).slice q.1 q.2
        Tensor.concat pieces 1) matrix = (.ok t, w') ∧ w'.value t = matrix.value (.node 0) := by
  intro join columns stacked
  have hjoin : (join.run matrix).1 = .ok (.node 1) := by decide +kernel
  have hcolumns : ((Tensor.node 0).permute [1, 0] matrix).1 = .ok (.node 1) := by decide +kernel
  have hstacked : (Tensor.stack [.node 0, .node 0] 0 matrix).1 = .ok (.node 3) := by
    decide +kernel
  have hheld : ∀ t ∈ [Tensor.node 0, .node 0], matrix.holds t = true := by decide +kernel
  obtain ⟨hgathers, hscatters, hpermute, hselect, hslices⟩ := run_gathers_scatters (α := ℤ) (β := ℤ)
  obtain ⟨haccepts, hgathers⟩ := hgathers join matrix hheld
  exact ⟨haccepts.mp ⟨_, _, Run.eq_of_fst hjoin⟩, hgathers _ _ (Run.eq_of_fst hjoin),
    hscatters join matrix _ 1 hheld (Run.eq_of_fst hjoin) _ _ awaits_returned,
    hpermute matrix _ _ _ [1, 0] [1, 0] (Run.eq_of_fst hcolumns) rfl (by decide),
    hselect matrix _ _ 0 1 _ _ hheld (Run.eq_of_fst hstacked) rfl,
    hslices matrix (.node 0) [1] 2 [1] (by decide +kernel) (by decide +kernel)
      (by decide +kernel) (by decide)⟩

example : ((Run.passOn 1 returned).2.gradient (.node 0)).map (·.toList) = some [4, 6] := by
  decide +kernel

end Example

end Gathering

end NeuralNet
