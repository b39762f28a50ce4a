import NeuralNet.Proofs.DenseArray.Broadcast
import NeuralNet.Proofs.DenseArray.Contraction
import NeuralNet.Proofs.Tape.Sweep
import NeuralNet.Proofs.Tape.Values

/-!
# Arithmetic on handles

Sums, differences and products of arrays that broadcast together, multiples, totals, means and
contractions. Each of them is linear in every operand, so that a gradient of the result gives an
operand the value of an adjoint. An operand that stands in two places gets a gradient for each.

* `Run.matmul_of_extents`: what a contraction ends with, for operands of any extents;
* `Run.passOn_arithmetic`: what arithmetic results in, and what goes back to its operands.
-/

namespace NeuralNet

open Finset (range)
open Function (update)

/-! ## Multiples and totals -/

namespace DenseArray

variable {α : Type} [ExactScalar α] {a b x y z g : DenseArray α} {factor : α}

/-- Every entry times the same factor. -/
structure Scales (factor : α) (x y : DenseArray α) : Prop where
  extents : y.extents = x.extents
  entry : ∀ i, x.extents.Contains i → y.get i = x.get i * factor

theorem scales_map (factor : α) (x : DenseArray α) : Scales factor x (x.map (· * factor)) :=
  ⟨rfl, fun _ => get_map _⟩

theorem Scales.along (h : Scales factor x y) (ha : Scales factor a b) (hx : a.extents = x.extents)
    (t : α) : Scales factor (x.along a t) (y.along b t) := by
  refine ⟨h.extents, fun i (hi : x.extents.Contains i) => ?_⟩
  rw [get_along h.extents (ha.extents.trans hx) t hi, get_along rfl hx t hi, h.entry i hi,
    ha.entry i (hx ▸ hi)]
  ring

theorem Scales.pullsBack (h : Scales factor x y) (hg : g.extents = y.extents) :
    PullsBack (Scales factor) x y g (g.map (· * factor)) := by
  have hgx := hg.trans h.extents
  refine ⟨hgx, fun a ha => ?_⟩
  have hmoved := scales_map factor a
  refine ⟨a.map (· * factor), ha.trans h.extents.symm, h.along hmoved ha, ?_⟩
  rw [dot, extents_map, dot]
  apply Finset.sum_congr rfl
  intro i hi
  have hgi := Extents.mem_box.mp hi
  rw [get_map _ hgi, hmoved.entry i ((ha.trans hgx.symm) ▸ hgi)]
  ring

/-- The sum of all entries times a factor. -/
structure Totals (factor : α) (x y : DenseArray α) : Prop where
  extents : y.extents = []
  entry : y.get [] = (∑ i ∈ x.extents.box, x.get i) * factor

theorem totals_scalar (factor : α) (x : DenseArray α) :
    Totals factor x (.scalar ((∑ i ∈ x.extents.box, x.get i) * factor)) := ⟨rfl, rfl⟩

theorem Totals.along (h : Totals factor x y) (ha : Totals factor a b) (hx : a.extents = x.extents)
    (t : α) : Totals factor (x.along a t) (y.along b t) := by
  have hextents : (x.along a t).extents = x.extents := rfl
  have hnil : Extents.Contains [] [] := trivial
  refine ⟨h.extents, ?_⟩
  rw [get_along h.extents ha.extents t hnil, h.entry, ha.entry, hx, hextents]
  calc (∑ i ∈ x.extents.box, x.get i) * factor + t * ((∑ i ∈ x.extents.box, a.get i) * factor)
      = (∑ i ∈ x.extents.box, (x.get i + t * a.get i)) * factor := by
        rw [Finset.sum_add_distrib, ← Finset.mul_sum]
        ring
    _ = (∑ i ∈ x.extents.box, (x.along a t).get i) * factor := by
        congr 1
        apply Finset.sum_congr rfl
        intro i hi
        rw [get_along rfl hx t (Extents.mem_box.mp hi)]

theorem Totals.scaled (h : Totals 1 x y) (h' : Scales factor y z) : Totals factor x z := by
  have hnil : y.extents.Contains [] := by
    rw [h.extents]
    trivial
  exact ⟨h'.extents.trans h.extents, by rw [h'.entry [] hnil, h.entry, mul_one]⟩

theorem Totals.pullsBack (h : Totals factor x y) (hg : g.extents = y.extents) :
    PullsBack (Totals factor) x y g (full x.extents (g.get [] * factor)) := by
  refine ⟨rfl, fun a ha => ?_⟩
  have hmoved := totals_scalar factor a
  refine ⟨_, h.extents.symm, h.along hmoved ha, ?_⟩
  have hextents : (full x.extents (g.get [] * factor)).extents = x.extents := rfl
  rw [dot, hextents, dot, hg, h.extents, Extents.sum_box_nil, hmoved.entry, ha, ← mul_assoc,
    mul_right_comm, Finset.mul_sum]
  apply Finset.sum_congr rfl
  intro i hi
  rw [get_full _ (Extents.mem_box.mp hi)]

end DenseArray

/-! ## Operations -/

/-- An array is as it was, and so is how it was computed. -/
structure Workspace.Retains {α : Type} (w u : Workspace α) (t : Tensor) : Prop where
  origin : u.origin t = w.origin t
  value : u.value t = w.value t
  requiresGrad : u.requiresGrad t = w.requiresGrad t

/-- An operation with the handles that it is of. -/
inductive Arithmetic (α : Type) where
  | add (a b : Tensor)
  | sub (a b : Tensor)
  | mul (a b : Tensor)
  | scale (a : Tensor) (factor : α)
  | sum (a : Tensor)
  | mean (a : Tensor)
  | matmul (a b : Tensor)

namespace Arithmetic

open DenseArray (Joins Scales Totals Contracts PullsBack)

variable {α : Type}

def operands : Arithmetic α → List Tensor
  | add a b | sub a b | mul a b | matmul a b => [a, b]
  | scale a _ | sum a | mean a => [a]

/-- The arrays of the operands, by their places. -/
def values (f : Arithmetic α) (w : Workspace α) (i : Nat) : DenseArray α :=
  (f.operands.map w.value).getD i default

/-- The nodes that a gradient of the result passes. A mean is a multiple of a total. -/
def chain : Arithmetic α → Nat → List Nat
  | mean _, id => [id, id - 1]
  | _, id => [id]

section

variable [Scalar α]

def run : Arithmetic α → Run α Tensor
  | add a b => a.add b
  | sub a b => a.sub b
  | mul a b => a.mul b
  | scale a factor => a.scale factor
  | sum a => a.sum
  | mean a => a.mean
  | matmul a b => a.matmul b

end

variable [ExactScalar α]

/-- What the result is of the arrays at the places of the operands. -/
def Gives : Arithmetic α → (Nat → DenseArray α) → DenseArray α → Prop
  | add _ _, x, y => Joins (· + ·) (x 0) (x 1) y
  | sub _ _, x, y => Joins (· - ·) (x 0) (x 1) y
  | mul _ _, x, y => Joins (· * ·) (x 0) (x 1) y
  | scale _ factor, x, y => Scales factor (x 0) y
  | sum _, x, y => Totals 1 (x 0) y
  | mean _, x, y => Totals (1 / Scalar.ofNat (max (x 0).extents.size 1)) (x 0) y
  | matmul _ _, x, y => ∃ lead n k, Contracts lead n k (x 0) (x 1) y

/-- What is recorded for an operation: its result, and how a gradient gets back to its operands as long
as they stay as they are. -/
structure Records (f : Arithmetic α) (w : Workspace α) (op : Operation α) (y : DenseArray α) :
    Prop where
  inputs : op.inputs = f.operands
  gives : f.Gives (f.values w) y
  pullsBack : ∀ {value g i d}, (∀ t ∈ f.operands, value t = w.value t) → g.extents = y.extents →
    i < f.operands.length → op.pullback value i g = .ok d →
      PullsBack (fun x' y' => f.Gives (update (f.values w) i x') y') (f.values w i) y g d

/-- A result that a gradient has come to, while everything is as it was when it was computed. -/
structure Awaits (f : Arithmetic α) (id : Nat) (w w' u : Workspace α) (g : DenseArray α) : Prop where
  operands : ∀ t ∈ f.operands, u.value t = w.value t
  retains : ∀ c ∈ f.chain id, w'.Retains u (.node c)
  recorded : (w'.origin (.node id)).isSome = true
  gradient : u.gradient (.node id) = some g
  extents : g.extents = (w'.value (.node id)).extents
  fresh : ∀ c ∈ (f.chain id).tail, u.gradient (.node c) = none

/-- The gradient has gone on to the operands: at each of its places an operand was given what pulls
the gradient back along the operation there. -/
def Returns (f : Arithmetic α) (id : Nat) (w : Workspace α) (y g : DenseArray α)
    (u u' : Workspace α) : Prop :=
  ∃ (between : DenseArray α) (D : Nat → DenseArray α),
    (do
      (f.chain id).tail.forM fun c => Run.addGradient (.node c) between
      f.operands.zipIdx.forM fun (t, i) => Run.addGradient t (D i)) u = (.ok (), u') ∧
    ∀ i < f.operands.length,
      PullsBack (fun x' y' => f.Gives (update (f.values w) i x') y') (f.values w i) y g (D i)

variable {a b : Tensor} {w : Workspace α} {y : DenseArray α} {factor : α}

/-- An operation on two handles is recorded if each of them is pulled back to while they stay. -/
theorem records_of_two {f : Arithmetic α} {op : Operation α} (hoperands : f.operands = [a, b])
    (hinputs : op.inputs = [a, b]) (hgives : f.Gives (f.values w) y)
    (hback : ∀ {value g}, value a = w.value a → value b = w.value b → g.extents = y.extents →
      (∀ d, op.pullback value 0 g = .ok d →
        PullsBack (fun x' y' => f.Gives (update (f.values w) 0 x') y') (f.values w 0) y g d) ∧
      ∀ d, op.pullback value 1 g = .ok d →
        PullsBack (fun x' y' => f.Gives (update (f.values w) 1 x') y') (f.values w 1) y g d) :
    f.Records w op y := by
  refine ⟨hinputs.trans hoperands.symm, hgives, ?_⟩
  intro value g i d hvalue hg hi hd
  rw [hoperands] at hvalue hi
  obtain ⟨hleft, hright⟩ := hback (hvalue a (by simp)) (hvalue b (by simp)) hg
  match i, hi with
  | 0, _ => exact hleft d hd
  | 1, _ => exact hright d hd

theorem records_add (h : (w.value a).broadcast "add" (· + ·) (w.value b) = .ok y) :
    (add a b).Records w (.add a b) y := by
  have hjoins := DenseArray.joins_of_broadcast h
  refine records_of_two rfl rfl hjoins fun {value g} ha hb hg => ⟨fun d hd => ?_, fun d hd => ?_⟩
  · have hd : g.reduceTo (value a).extents = .ok d := hd
    have hback : PullsBack (fun x' y' => Joins (· + ·) x' (w.value b) y') (w.value a) y g d := by
      rw [ha] at hd
      exact hjoins.pullsBack_left (fun p _ => p) (fun p p' q t => add_right_comm _ _ _) hg g hg
        (fun _ _ _ => rfl) hd
    exact hback
  · have hd : g.reduceTo (value b).extents = .ok d := hd
    have hback : PullsBack (fun x' y' => Joins (· + ·) (w.value a) x' y') (w.value b) y g d := by
      rw [hb] at hd
      exact hjoins.pullsBack_right (fun _ q => q) (fun p q q' t => (add_assoc _ _ _).symm)
        hg g hg (fun _ _ _ => rfl) hd
    exact hback

theorem records_sub (h : (w.value a).broadcast "sub" (· - ·) (w.value b) = .ok y) :
    (sub a b).Records w (.sub a b) y := by
  have hjoins := DenseArray.joins_of_broadcast h
  refine records_of_two rfl rfl hjoins fun {value g} ha hb hg => ⟨fun d hd => ?_, fun d hd => ?_⟩
  · have hd : g.reduceTo (value a).extents = .ok d := hd
    have hback : PullsBack (fun x' y' => Joins (· - ·) x' (w.value b) y') (w.value a) y g d := by
      rw [ha] at hd
      exact hjoins.pullsBack_left (fun p _ => p) (fun p p' q t => by ring) hg g hg
        (fun _ _ _ => rfl) hd
    exact hback
  · have hd : (g.map (-·)).reduceTo (value b).extents = .ok d := hd
    have hback : PullsBack (fun x' y' => Joins (· - ·) (w.value a) x' y') (w.value b) y g d := by
      rw [hb] at hd
      refine hjoins.pullsBack_right (fun _ q => -q) (fun p q q' t => by ring) hg
        (g.map (-·)) hg ?_ hd
      intro j hj q
      rw [DenseArray.get_map _ (hg ▸ hj), neg_mul, mul_neg]
    exact hback

theorem records_mul (h : (w.value a).broadcast "mul" (· * ·) (w.value b) = .ok y) :
    (mul a b).Records w (.mul a b) y := by
  have hjoins := DenseArray.joins_of_broadcast h
  refine records_of_two rfl rfl hjoins fun {value g} ha hb hg => ⟨fun d hd => ?_, fun d hd => ?_⟩
  · have hd : (g.times (value b) (value a).extents).reduceTo (value a).extents = .ok d := hd
    have hback : PullsBack (fun x' y' => Joins (· * ·) x' (w.value b) y') (w.value a) y g d := by
      rw [ha, hb] at hd
      refine hjoins.pullsBack_left (· * ·) (fun p p' q t => by ring) hg
        (g.times (w.value b) (w.value a).extents) ?_ ?_ hd
      · rw [DenseArray.extents_times, hg]
      · intro j hj p
        rw [DenseArray.get_times _ (hg ▸ hj), mul_assoc, mul_comm p]
    exact hback
  · have hd : (g.times (value a) (value b).extents).reduceTo (value b).extents = .ok d := hd
    have hback : PullsBack (fun x' y' => Joins (· * ·) (w.value a) x' y') (w.value b) y g d := by
      rw [ha, hb] at hd
      refine hjoins.pullsBack_right (· * ·) (fun p q q' t => by ring) hg
        (g.times (w.value a) (w.value b).extents) ?_ ?_ hd
      · rw [DenseArray.extents_times, hg]
      · intro j hj q
        rw [DenseArray.get_times _ (hg ▸ hj), mul_assoc]
    exact hback

theorem records_scale : (scale a factor).Records w (.scale a factor)
    ((w.value a).map (· * factor)) := by
  have hscales := DenseArray.scales_map factor (w.value a)
  refine ⟨rfl, hscales, ?_⟩
  intro value g i d hvalue hg hi hd
  match i, hi with
  | 0, _ =>
    cases hd
    exact hscales.pullsBack hg

theorem records_sum : (sum a).Records w (.sum a) (.scalar (w.value a).sum) := by
  have htotals : Totals 1 (w.value a) (.scalar (w.value a).sum) :=
    ⟨rfl, (DenseArray.sum_eq_sum_box _).trans (mul_one _).symm⟩
  refine ⟨rfl, htotals, ?_⟩
  intro value g i d hvalue hg hi hd
  have ha := hvalue a (by simp [operands])
  match i, hi with
  | 0, _ =>
    have hentry : g.get [] * 1 = g.entry 0 := by
      rw [mul_one, DenseArray.get, hg]
      rfl
    cases hd
    rw [ha, ← hentry]
    exact htotals.pullsBack hg

theorem records_matmul (h : (w.value a).matmul (w.value b) = .ok y) :
    (matmul a b).Records w (.matmul a b (w.value a) (w.value b)) y := by
  obtain ⟨lead, n, k, hcontracts⟩ := DenseArray.contracts_of_matmul h
  refine records_of_two rfl rfl ⟨lead, n, k, hcontracts⟩
    fun {_ g} _ _ hg => ⟨fun d hd => ?_, fun d hd => ?_⟩
  · exact (hcontracts.pullsBack_left hg hd).mono fun x' y' _ h' => ⟨lead, n, k, h'⟩
  · exact (hcontracts.pullsBack_right hg hd).mono fun x' y' _ h' => ⟨lead, n, k, h'⟩

end Arithmetic

/-! ## The tape -/

namespace Run

open Arithmetic
open DenseArray (Contracts PullsBack Scales Totals)

section

variable {α : Type} {w w' : Workspace α} {t y : Tensor} {op : Operation α} {data : DenseArray α}

theorem retains_record (h : record op data w = (.ok y, w')) (ht : w.holds t = true) :
    w.Retains w' t := by
  have hvalue := value_record_of_holds h ht
  rw [record_apply] at h
  cases h
  have hne : t ≠ .node w.nodes.size := by
    rintro rfl
    exact Nat.lt_irrefl _ (of_decide_eq_true ht)
  exact ⟨by rw [Workspace.origin_push, if_neg hne], hvalue,
    by rw [Workspace.requiresGrad_push, if_neg hne]⟩

/-- What a run leaves, without the run being looked into. -/
theorem eq_of_fst {β : Type} {x : Run α β} {b : β} (h : (x w).1 = .ok b) : x w = (.ok b, (x w).2) :=
  Prod.ext h rfl

theorem unary_ok {a : Tensor} (make : DenseArray α → DenseArray α)
    (h : (do record op (make (← value a))) w = (.ok y, w')) :
    record op (make (w.value a)) w = (.ok y, w') := by
  rwa [bind_of_ok (value_apply a w)] at h

/-- What two arrays make is recorded if they make anything. -/
theorem binary_ok {a b : Tensor} (op : DenseArray α → DenseArray α → Operation α)
    (make : DenseArray α → DenseArray α → Except Error (DenseArray α))
    (h : (do
      let x ← value a
      let y ← value b
      record (op x y) (← check (make x y))) w = (.ok y, w')) :
    ∃ data, make (w.value a) (w.value b) = .ok data ∧
      record (op (w.value a) (w.value b)) data w = (.ok y, w') := by
  rw [bind_of_ok (value_apply a w), bind_of_ok (value_apply b w)] at h
  exact check_bind_ok_iff.mp h

end

variable {α : Type} [ExactScalar α] {w w' u u' : Workspace α} {y : Tensor} {op : Operation α}
  {g data : DenseArray α} {ls : List (Link α)} {id : Nat} {f : Arithmetic α}

/-- What is sent over links does not depend on what was sent before. -/
theorem send_of_sendAll (h : sendAll ls g w = (.ok (), w')) :
    (∀ l ∈ ls, ∃ d, w.send l g = .ok d) ∧ ∀ D : Link α → DenseArray α,
      (∀ l ∈ ls, w.send l g = .ok (D l)) →
        (ls.forM fun l => addGradient l.target (D l)) w = (.ok (), w') := by
  induction ls generalizing w with
  | nil => exact ⟨List.forall_mem_nil _, fun _ _ => h⟩
  | cons l ls ih =>
    obtain ⟨d, w₁, hsend, hadd, hrest⟩ := sendAll_cons_ok_iff.mp h
    have hsame := (received_of_addGradient hadd).sameTape.send
    obtain ⟨hsent, hrun⟩ := ih hrest
    rw [hsame] at hsent hrun
    refine ⟨List.forall_mem_cons.mpr ⟨⟨d, hsend⟩, hsent⟩, fun D hD => ?_⟩
    obtain ⟨hl, hls⟩ := List.forall_mem_cons.mp hD
    cases hl.symm.trans hsend
    exact forM_cons_ok_iff.mpr ⟨w₁, hadd, hrun D hls⟩

/-- A node adds one gradient to each of its inputs. -/
theorem passOn_ok (hg : u.gradient (.node id) = some g) (hop : u.origin (.node id) = some op)
    (h : passOn id u = (.ok (), u')) : ∃ D : Nat → DenseArray α,
      (∀ i < op.inputs.length, op.pullback u.value i g = .ok (D i)) ∧
      (op.inputs.zipIdx.forM fun (t, i) => addGradient t (D i)) u = (.ok (), u') := by
  rw [passOn_of_gradient hg hop, Workspace.links, hop] at h
  obtain ⟨hsent, hrun⟩ := send_of_sendAll h
  let D i := (op.pullback u.value i g).toOption.getD default
  have hD : ∀ i < op.inputs.length, op.pullback u.value i g = .ok (D i) := by
    intro i hi
    have hmem : (op.inputs[i], i) ∈ op.inputs.zipIdx :=
      List.mk_mem_zipIdx_iff_getElem?.mpr (List.getElem?_eq_getElem hi)
    obtain ⟨d, hd⟩ := hsent ⟨op, i, op.inputs[i]⟩ (List.mem_map.mpr ⟨_, hmem, rfl⟩)
    have hpull : op.pullback u.value i g = .ok d := hd
    simp only [D, hpull]
    rfl
  refine ⟨D, hD, ?_⟩
  have hrun := hrun (fun l => D l.position) (List.forall_mem_map.mpr fun p hp =>
    hD p.2 (List.snd_lt_of_mem_zipIdx hp))
  rw [List.forM_eq_forM, List.forM_map] at hrun
  exact hrun

/-- What goes back from a recorded result, while its operands are as they were. -/
theorem passOn_of_records (hrecord : record op data w = (.ok (.node id), w'))
    (h : f.Records w op data) (hoperands : ∀ t ∈ f.operands, u.value t = w.value t)
    (horigin : u.origin (.node id) = w'.origin (.node id))
    (hrecorded : (w'.origin (.node id)).isSome = true)
    (hg : u.gradient (.node id) = some g) (hextents : g.extents = data.extents)
    (hpassed : passOn id u = (.ok (), u')) : ∃ D : Nat → DenseArray α,
      (f.operands.zipIdx.forM fun (t, i) => addGradient t (D i)) u = (.ok (), u') ∧
      ∀ i < f.operands.length, PullsBack (fun x' y' => f.Gives (update (f.values w) i x') y')
        (f.values w i) data g (D i) := by
  obtain ⟨op', hop'⟩ := Option.isSome_iff_exists.mp hrecorded
  obtain rfl := origin_record hrecord hop'
  obtain ⟨D, hD, hrun⟩ := passOn_ok hg (horigin.trans hop') hpassed
  rw [h.inputs] at hD hrun
  exact ⟨D, hrun, fun i hi => h.pullsBack hoperands hextents hi (hD i hi)⟩

/-- What is recorded, a mean apart. -/
theorem exists_records (h : f.run w = (.ok y, w')) (hmean : ∀ a, f ≠ .mean a) :
    ∃ op data, record op data w = (.ok y, w') ∧ f.Records w op data := by
  cases f with
  | add a b =>
    obtain ⟨data, hdata, hrecord⟩ :=
      binary_ok (fun _ _ => .add a b) (·.broadcast "add" (· + ·) ·) h
    exact ⟨_, data, hrecord, records_add hdata⟩
  | sub a b =>
    obtain ⟨data, hdata, hrecord⟩ :=
      binary_ok (fun _ _ => .sub a b) (·.broadcast "sub" (· - ·) ·) h
    exact ⟨_, data, hrecord, records_sub hdata⟩
  | mul a b =>
    obtain ⟨data, hdata, hrecord⟩ :=
      binary_ok (fun _ _ => .mul a b) (·.broadcast "mul" (· * ·) ·) h
    exact ⟨_, data, hrecord, records_mul hdata⟩
  | scale a factor => exact ⟨_, _, unary_ok (·.map (· * factor)) h, records_scale⟩
  | sum a => exact ⟨_, _, unary_ok (.scalar ·.sum) h, records_sum⟩
  | mean a => exact absurd rfl (hmean a)
  | matmul a b =>
    obtain ⟨data, hdata, hrecord⟩ := binary_ok (.matmul a b) DenseArray.matmul h
    exact ⟨_, data, hrecord, records_matmul hdata⟩

/-- A mean is recorded as a total and a multiple of it. -/
theorem exists_total_of_mean {a : Tensor} (h : (Arithmetic.mean a).run w = (.ok (.node id), w')) :
    ∃ n w₁, id = n + 1 ∧ (Arithmetic.sum a).run w = (.ok (.node n), w₁) ∧
      (Arithmetic.scale (.node n) (1 / Scalar.ofNat (max (w.value a).extents.size 1))).run w₁ =
        (.ok (.node id), w') := by
  have hsize : (w.value a).size = (w.value a).extents.size := (w.value a).size_eq
  change a.mean w = _ at h
  unfold Tensor.mean at h
  rw [bind_of_ok (value_apply a w), hsize] at h
  obtain ⟨s, w₁, hsum, hscale⟩ := bind_ok_iff.mp h
  have hsum : (Arithmetic.sum a).run w = (.ok s, w₁) := hsum
  have hscale : (Arithmetic.scale s (1 / Scalar.ofNat (max (w.value a).extents.size 1))).run w₁ =
    (.ok (.node id), w') := hscale
  obtain ⟨op, total, hrecord, -⟩ := exists_records hsum nofun
  obtain ⟨op', data, hrecord', -⟩ := exists_records hscale nofun
  obtain ⟨rfl, hnext⟩ := node_of_record hrecord
  obtain ⟨hid, -⟩ := node_of_record hrecord'
  exact ⟨_, w₁, (Tensor.node.inj hid).trans hnext, hsum, hscale⟩

/-- A gradient of a mean passes the total on its way to the array. -/
theorem returns_mean {a : Tensor} (h : (Arithmetic.mean a).run w = (.ok (.node id), w'))
    (hu : (Arithmetic.mean a).Awaits id w w' u g)
    (hpassed : ((Arithmetic.mean a : Arithmetic α).chain id).forM passOn u = (.ok (), u')) :
    (Arithmetic.mean a).Returns id w (w'.value (.node id)) g u u' := by
  obtain ⟨n, w₁, rfl, hsum, hscale⟩ := exists_total_of_mean h
  obtain ⟨op, total, hrecord, htotal⟩ := exists_records hsum nofun
  obtain ⟨op', data, hrecord', hdata⟩ := exists_records hscale nofun
  have hvalue := value_record hrecord
  have hvalue' := value_record hrecord'
  have hkept := retains_record hrecord' (holds_record hrecord)
  have hlast := hu.retains (n + 1) (by simp [chain])
  have hinner := hu.retains n (by simp [chain])
  obtain ⟨u₁, hfirst, hrest⟩ := forM_cons_ok_iff.mp hpassed
  obtain ⟨u₂, hsecond, hnil⟩ := forM_cons_ok_iff.mp hrest
  cases hnil
  -- the total wants a gradient because the multiple of it does
  have hwants : w₁.requiresGrad (.node n) = true := by
    obtain ⟨t, ht, hwants⟩ := exists_input_of_recorded hrecord' hu.recorded
    rw [hdata.inputs] at ht
    obtain rfl := List.mem_singleton.mp ht
    exact hwants
  obtain ⟨E, hE, hback⟩ := passOn_of_records hrecord' hdata
    (List.forall_mem_singleton.mpr (hinner.value.trans hkept.value)) hlast.origin hu.recorded
    hu.gradient (hvalue' ▸ hu.extents) hfirst
  obtain ⟨u₂, hadd, hnil⟩ := forM_cons_ok_iff.mp hE
  cases hnil
  have hreceived := received_of_addGradient hadd
  have hgradient : u₁.gradient (.node n) = some (E 0) := by
    rw [hreceived.added ((hinner.requiresGrad.trans hkept.requiresGrad).trans hwants),
      hu.fresh n (by simp [chain])]
    rfl
  let factor : α := 1 / Scalar.ofNat (max (w.value a).extents.size 1)
  have hback : PullsBack (Scales factor) (w₁.value (.node n)) data g (E 0) := hback 0 Nat.one_pos
  obtain ⟨D, hD, hback'⟩ := passOn_of_records hrecord htotal
    (fun t ht => (hreceived.sameTape.value t).trans (hu.operands t ht))
    ((hreceived.sameTape.origin _).trans (hinner.origin.trans hkept.origin))
    (by rw [origin_record_eq hrecord, if_pos hwants]; rfl) hgradient
    (hback.extents.trans (congrArg _ hvalue)) hsecond
  refine ⟨E 0, D, bind_ok_iff.mpr ⟨(), u₁, forM_cons_ok_iff.mpr ⟨u₁, hadd, rfl⟩, hD⟩, ?_⟩
  intro i hi
  obtain rfl := Nat.lt_one_iff.mp hi
  have hback' : PullsBack (Totals 1) (w.value a) total (E 0) (D 0) := hback' 0 Nat.one_pos
  rw [hvalue] at hback
  have hboth : PullsBack (fun x' y' => Totals (1 / Scalar.ofNat (max x'.extents.size 1)) x' y')
      (w.value a) data g (D 0) := by
    refine (hback'.comp hback).mono fun x' z' hx ⟨y', htotals, hscales⟩ => ?_
    rw [hx]
    exact htotals.scaled hscales
  rw [hvalue']
  exact hboth

/-- Arithmetic results in the arrays that it is defined by, entry by entry where the operands broadcast
together. A gradient of a recorded result gives every place of an operand an array of the extents of
the operand, whose inner product with any direction there is that of the gradient with the derivative
along this direction. An operand that stands in two places is given both arrays. -/
theorem passOn_arithmetic (h : f.run w = (.ok (.node id), w')) :
    f.Gives (f.values w) (w'.value (.node id)) ∧
      ∀ u u' g, f.Awaits id w w' u g → (f.chain id).forM passOn u = (.ok (), u') →
        f.Returns id w (w'.value (.node id)) g u u' := by
  by_cases hmean : ∃ a, f = .mean a
  · obtain ⟨a, rfl⟩ := hmean
    refine ⟨?_, fun u u' g hu hpassed => returns_mean h hu hpassed⟩
    obtain ⟨n, w₁, rfl, hsum, hscale⟩ := exists_total_of_mean h
    obtain ⟨_, total, hrecord, htotal⟩ := exists_records hsum nofun
    obtain ⟨_, data, hrecord', hdata⟩ := exists_records hscale nofun
    have hscales : Scales _ (w₁.value (.node n)) data := hdata.gives
    rw [value_record hrecord] at hscales
    rw [value_record hrecord']
    exact DenseArray.Totals.scaled htotal.gives hscales
  · obtain ⟨op, data, hrecord, hdata⟩ := exists_records h (not_exists.mp hmean)
    have hvalue := value_record hrecord
    rw [hvalue]
    refine ⟨hdata.gives, fun u u' g hu hpassed => ?_⟩
    have hchain : f.chain id = [id] := by
      cases f
      case mean a => exact absurd ⟨a, rfl⟩ hmean
      all_goals rfl
    rw [hchain] at hpassed
    obtain ⟨u₁, hpassed, hnil⟩ := forM_cons_ok_iff.mp hpassed
    cases hnil
    obtain ⟨D, hD, hback⟩ := passOn_of_records hrecord hdata hu.operands
      (hu.retains id (by simp [hchain])).origin hu.recorded hu.gradient (hvalue ▸ hu.extents)
      hpassed
    refine ⟨g, D, ?_, hback⟩
    rw [hchain]
    exact hD

section Example

/-- A column and a row. -/
def factors : Workspace ℤ :=
  let node (data : DenseArray ℤ) : Node ℤ := ⟨data, none, true, none⟩
  { Workspace.seeded 0 with nodes := #[node ⟨[2, 1], #[1, 2], rfl⟩, node ⟨[3], #[3, 4, 5], rfl⟩] }

theorem passOn_arithmetic_factors :
    let f : Arithmetic ℤ := .mul (.node 0) (.node 1)
    let w' := (f.run factors).2
    let u := (addGradient (.node 2) (.ones [2, 3]) w').2
    f.run factors = (.ok (.node 2), w') ∧ f.Gives (f.values factors) (w'.value (.node 2)) ∧
      f.Returns 2 factors (w'.value (.node 2)) (.ones [2, 3]) u (passOn 2 u).2 := by
  intro f w' u
  have hrun : (f.run factors).1 = .ok (.node 2) := by decide +kernel
  have hadd : (addGradient (.node 2) (.ones [2, 3]) w').1 = .ok () := by decide +kernel
  have hends : (passOn 2 u).1 = .ok () := by decide +kernel
  have h : f.run factors = (.ok (.node 2), w') := eq_of_fst hrun
  have hsame : w'.SameTape u := (received_of_addGradient (eq_of_fst hadd)).sameTape
  have hpassed : [2].forM passOn u = (.ok (), (passOn 2 u).2) :=
    forM_cons_ok_iff.mpr ⟨_, eq_of_fst hends, rfl⟩
  have hawaits : f.Awaits 2 factors w' u (.ones [2, 3]) := by
    constructor
    · decide +kernel
    · intro c _
      exact ⟨hsame.origin _, hsame.value _, hsame.requiresGrad _⟩
    · decide +kernel
    · decide +kernel
    · decide +kernel
    · exact List.forall_mem_nil _
  obtain ⟨hgives, hreturns⟩ := passOn_arithmetic h
  exact ⟨h, hgives, hreturns u _ _ hawaits hpassed⟩

example :
    let w' := ((Tensor.node 0).mul (.node 1) factors).2
    let u := (backward (.node 2) w').2
    (u.gradient (.node 0)).map (·.toList) = some [12, 12] ∧
      (u.gradient (.node 1)).map (·.toList) = some [3, 3, 3] := by
  decide +kernel

end Example

/-! ## Contraction -/

omit [ExactScalar α] in
theorem check_record_error {r : Except Error (DenseArray α)} {e : Error} (h : r = .error e) :
    (check r >>= record op) w = (.error e, w) := by
  subst h
  rfl

/-- What a contraction ends with. Operands whose extents do not go together are reported. For the
others the contraction is recorded, entry by entry the sum over the last axes, unless its extents have
no array, or it has entries without any term: these are refused although they are sums of nothing. -/
theorem matmul_of_extents (a b : Tensor) (w : Workspace α) :
    (∀ (lead : Extents) (n k : Nat),
      (w.value a).extents = lead ++ [k] → (w.value b).extents = [n, k] →
      if Extents.addressable (lead ++ [n]) ∧ (k = 0 → Extents.size (lead ++ [n]) = 0) then
        ∃ id w', a.matmul b w = (.ok (.node id), w') ∧
          (w'.value (.node id)).extents = lead ++ [n] ∧
          ∀ l j, lead.Contains l → j < n → (w'.value (.node id)).get (l ++ [j]) =
            ∑ t ∈ range k, (w.value a).get (l ++ [t]) * (w.value b).get [j, t]
      else a.matmul b w = (.error (.array .incompatibleExtents), w)) ∧
    ((¬∃ lead n k, (w.value a).extents = lead ++ [k] ∧ (w.value b).extents = [n, k]) →
      ∃ operand expected found,
        a.matmul b w = (.error (.shapeMismatch operand expected found), w)) := by
  have hrun : a.matmul b w = (check ((w.value a).matmul (w.value b)) >>=
    record (.matmul a b (w.value a) (w.value b))) w := rfl
  rw [hrun]
  constructor
  · intro lead n k ha hb
    have hends := DenseArray.matmul_contracts ha hb
    by_cases hmade : Extents.addressable (lead ++ [n]) ∧ (k = 0 → Extents.size (lead ++ [n]) = 0)
    · rw [if_pos hmade] at hends ⊢
      obtain ⟨y, hy, hcontracts⟩ := hends
      have hrecord := record_apply (.matmul a b (w.value a) (w.value b)) y w
      rw [hy]
      refine ⟨_, _, hrecord, ?_⟩
      rw [value_record hrecord]
      exact ⟨hcontracts.extents, hcontracts.entry⟩
    · rw [if_neg hmade] at hends ⊢
      exact check_record_error hends
  · intro hmismatch
    obtain ⟨operand, expected, found, herror⟩ := DenseArray.matmul_mismatch hmismatch
    exact ⟨operand, expected, found, check_record_error herror⟩

section Example

/-- Two matrices without a column and one that has a column. -/
def matrices : Workspace ℤ :=
  let node (data : DenseArray ℤ) : Node ℤ := ⟨data, none, false, none⟩
  { Workspace.seeded 0 with
    nodes := #[node ⟨[2, 0], #[], rfl⟩, node ⟨[3, 0], #[], rfl⟩, node ⟨[2, 1], #[4, 5], rfl⟩] }

theorem matmul_of_extents_matrices :
    (∃ id w', (Tensor.node 2).matmul (.node 2) matrices = (.ok (.node id), w') ∧
      (w'.value (.node id)).extents = [2, 2] ∧ (w'.value (.node id)).get [0, 1] = 4 * 5) ∧
    ∃ operand expected found, (Tensor.node 2).matmul (.node 0) matrices =
      (.error (.shapeMismatch operand expected found), matrices) := by
  constructor
  · have hends := (matmul_of_extents (.node 2) (.node 2) matrices).1 [2] 2 1 rfl rfl
    rw [if_pos (by decide)] at hends
    obtain ⟨id, w', hrun, hextents, hentry⟩ := hends
    refine ⟨id, w', hrun, hextents, ?_⟩
    exact (hentry [0] 1 (by decide) (by decide)).trans (Finset.sum_range_one _)
  · refine (matmul_of_extents (.node 2) (.node 0) matrices).2 ?_
    rintro ⟨lead, n, k, ha, hb⟩
    obtain rfl : k = 0 := (List.cons.inj (List.cons.inj hb).2).1.symm
    have hlast := congrArg List.getLast? ha
    rw [List.getLast?_concat] at hlast
    cases hlast

/-- Each of the six sums has no term, and yet they are not made. -/
theorem matmul_of_no_terms :
    (matrices.value (.node 0)).extents = [2] ++ [0] ∧ (matrices.value (.node 1)).extents = [3, 0] ∧
      ¬∃ id w', (Tensor.node 0).matmul (.node 1) matrices = (.ok (.node id), w') ∧
        (w'.value (.node id)).extents = [2] ++ [3] := by
  refine ⟨rfl, rfl, ?_⟩
  rintro ⟨id, w', hrun, -⟩
  have hends : (Tensor.node 0).matmul (.node 1) matrices =
    (.error (.array .incompatibleExtents), matrices) := rfl
  cases hends.symm.trans hrun

end Example

end Run

end NeuralNet
