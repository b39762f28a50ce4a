import NeuralNet.Proofs.DenseArray.Reduction
import NeuralNet.Proofs.Tape.Arithmetic

/-!
# The way back from operands that broadcast together

Forward, the extents of two operands are compared axis by axis. On the way back the gradient is
summed to each of them by another rule, which takes all that the first one lets through but an axis
of extent 1 that stood for an empty one.

* `Run.sendAll_ends`: a node passes its gradient on, or stops at the first failure;
* `Run.broadcast_reduces`: which operands a gradient gets back to;
* `Run.broadcast_reduces_fails`: two arrays that are added, but have no way back.
-/

namespace NeuralNet

/-- The operations on two arrays that broadcast together. -/
inductive Joining where
  | add
  | sub
  | mul

namespace Joining

variable {α : Type} [Scalar α]

def run : Joining → Tensor → Tensor → Run α Tensor
  | add, x, y => x.add y
  | sub, x, y => x.sub y
  | mul, x, y => x.mul y

def operation : Joining → Tensor → Tensor → Operation α
  | add, x, y => .add x y
  | sub, x, y => .sub x y
  | mul, x, y => .mul x y

omit [Scalar α] in
theorem inputs_operation (f : Joining) (x y : Tensor) :
    (f.operation x y : Operation α).inputs = [x, y] := by
  cases f <;> rfl

theorem run_ok {f : Joining} {x y t : Tensor} {w w' : Workspace α}
    (h : f.run x y w = (.ok t, w')) : ∃ data : DenseArray α,
      (w.value x).extents.Broadcasts (w.value y).extents data.extents ∧
      Run.record (f.operation x y) data w = (.ok t, w') := by
  cases f with
  | add =>
    obtain ⟨data, hdata, hrecord⟩ :=
      Run.binary_ok (fun _ _ => .add x y) (·.broadcast "add" (· + ·) ·) h
    exact ⟨data, (DenseArray.joins_of_broadcast hdata).extents, hrecord⟩
  | sub =>
    obtain ⟨data, hdata, hrecord⟩ :=
      Run.binary_ok (fun _ _ => .sub x y) (·.broadcast "sub" (· - ·) ·) h
    exact ⟨data, (DenseArray.joins_of_broadcast hdata).extents, hrecord⟩
  | mul =>
    obtain ⟨data, hdata, hrecord⟩ :=
      Run.binary_ok (fun _ _ => .mul x y) (·.broadcast "mul" (· * ·) ·) h
    exact ⟨data, (DenseArray.joins_of_broadcast hdata).extents, hrecord⟩

/-- What goes back to an operand is summed back from an array of the extents of the gradient. -/
theorem exists_reduced (f : Joining) (x y : Tensor) (value : Tensor → DenseArray α)
    (g : DenseArray α) (position : Nat) : ∃ g' : DenseArray α, g'.extents = g.extents ∧
      (f.operation x y).pullback value position g =
        g'.reduceTo (value (if position = 0 then x else y)).extents := by
  cases f with
  | add => cases position <;> exact ⟨g, rfl, rfl⟩
  | sub =>
    cases position with
    | zero => exact ⟨g, rfl, rfl⟩
    | succ => exact ⟨g.map (-·), rfl, rfl⟩
  | mul =>
    cases position with
    | zero => exact ⟨g.times (value y) (value x).extents, g.extents_times _ _, rfl⟩
    | succ => exact ⟨g.times (value x) (value y).extents, g.extents_times _ _, rfl⟩

end Joining

namespace Run

section Scalar

variable {α : Type} [Scalar α] {w w' u : Workspace α} {t : Tensor} {g : DenseArray α}
  {ls : List (Link α)}

/-- A gradient of the extents of its array is always taken. -/
theorem exists_sameTape (h : g.extents = (w.value t).extents) :
    ∃ w', addGradient t g w = (.ok (), w') ∧ w.SameTape w' := by
  unfold addGradient
  rw [bind_apply, get_apply]
  dsimp only
  split
  · rw [if_pos h.symm]
    exact ⟨_, rfl, w.sameTape_setGradient t _⟩
  · exact ⟨w, rfl, .refl w⟩

/-- A gradient goes over all links, or the first failure to send it stops it. -/
theorem sendAll_ends
    (h : ∀ l ∈ ls, ∀ d, u.send l g = .ok d → d.extents = (u.value l.target).extents) :
    ((sendAll ls g u).1 = .ok () ∧ ∀ l ∈ ls, ∃ d, u.send l g = .ok d) ∨
      ∃ l ∈ ls, ∃ e, u.send l g = .error e ∧ (sendAll ls g u).1 = .error e := by
  induction ls generalizing u with
  | nil => exact .inl ⟨rfl, List.forall_mem_nil _⟩
  | cons l ls ih =>
    obtain ⟨hl, hls⟩ := List.forall_mem_cons.mp h
    let first : Run α Unit := do addGradient l.target (← check ((← get).send l g))
    have hcons : sendAll (l :: ls) g u = (first >>= fun _ => sendAll ls g) u := rfl
    have hfirst : first u = (check (u.send l g) >>= addGradient l.target) u :=
      bind_of_ok (get_apply u)
    cases hsend : u.send l g with
    | error e =>
      rw [hsend, bind_of_error (check_apply _ u)] at hfirst
      refine .inr ⟨l, List.mem_cons_self, e, hsend, ?_⟩
      rw [hcons, bind_of_error hfirst]
    | ok d =>
      obtain ⟨u', hadd, hsame⟩ := exists_sameTape (hl d hsend)
      rw [hsend, bind_of_ok (check_apply _ u), hadd] at hfirst
      have hrest : sendAll (l :: ls) g u = sendAll ls g u' := by rw [hcons, bind_of_ok hfirst]
      have hls' := ih (u := u') fun l hmem d hd => by
        rw [hsame.send] at hd
        rw [hsame.value]
        exact hls l hmem d hd
      rw [hsame.send, ← hrest] at hls'
      rcases hls' with ⟨hends, hsent⟩ | ⟨l', hmem, e, herror, hends⟩
      · exact .inl ⟨hends, List.forall_mem_cons.mpr ⟨⟨d, hsend⟩, hsent⟩⟩
      · exact .inr ⟨l', List.mem_cons_of_mem _ hmem, e, herror, hends⟩

/-- Both operands are sent what is summed back to them. -/
theorem send_joining {f : Joining} {x y : Tensor} {l : Link α} {id : Nat}
    (hop : u.origin (.node id) = some (f.operation x y)) (hl : l ∈ u.links (.node id)) :
    ∃ g' : DenseArray α, g'.extents = g.extents ∧
      u.send l g = g'.reduceTo (u.value l.target).extents := by
  simp only [Workspace.links, hop, f.inputs_operation, List.zipIdx_cons, List.zipIdx_nil,
    List.map_cons, List.map_nil, List.mem_cons, List.not_mem_nil, or_false] at hl
  rcases hl with rfl | rfl
  · exact f.exists_reduced x y u.value g 0
  · exact f.exists_reduced x y u.value g 1

omit [Scalar α] in
theorem target_joining {f : Joining} {x y t : Tensor} {id : Nat}
    (hop : u.origin (.node id) = some (f.operation x y)) :
    t ∈ [x, y] ↔ ∃ l ∈ u.links (.node id), l.target = t := by
  simp [Workspace.links, hop, f.inputs_operation, eq_comm]

/-- What passing a gradient on to operands that broadcast together ends with. -/
theorem passOn_joining {f : Joining} {x y : Tensor} {id : Nat}
    (hop : u.origin (.node id) = some (f.operation x y)) (hg : u.gradient (.node id) = some g)
    (hspreads : ∀ t ∈ [x, y], (u.value t).extents.Spreads g.extents) :
    ((passOn id u).1 = .ok () ∧ ∀ t ∈ [x, y], ¬(u.value t).extents.Vanishes g.extents) ∨
      ∃ t ∈ [x, y], (u.value t).extents.Vanishes g.extents ∧
        (passOn id u).1 = .error (.shapeMismatch "gradient reduction"
          (.extents (u.value t).extents) (.extents g.extents)) := by
  have hends : ∀ l ∈ u.links (.node id), l.target ∈ [x, y] ∧
      (((u.value l.target).extents.Vanishes g.extents ∧ u.send l g =
          .error (.shapeMismatch "gradient reduction" (.extents (u.value l.target).extents)
            (.extents g.extents))) ∨
        (¬(u.value l.target).extents.Vanishes g.extents ∧
          ∃ d, u.send l g = .ok d ∧ d.extents = (u.value l.target).extents)) := by
    intro l hl
    have hmem := (target_joining hop).mpr ⟨l, hl, rfl⟩
    obtain ⟨g', hextents, hsend⟩ := send_joining (g := g) hop hl
    have hreduced := DenseArray.reduceTo_of_spreads (hextents ▸ hspreads _ hmem)
    rw [← hsend, hextents] at hreduced
    exact ⟨hmem, hreduced⟩
  rw [passOn_of_gradient hg hop]
  have hfits : ∀ l ∈ u.links (.node id), ∀ d, u.send l g = .ok d →
      d.extents = (u.value l.target).extents := by
    intro l hl d hd
    rcases (hends l hl).2 with ⟨-, herror⟩ | ⟨-, d', hd', hextents⟩
    · cases hd.symm.trans herror
    · cases hd.symm.trans hd'
      exact hextents
  rcases sendAll_ends hfits with ⟨hok, hsent⟩ | ⟨l, hl, e, herror, hstop⟩
  · refine .inl ⟨hok, fun t ht hvanishes => ?_⟩
    obtain ⟨l, hl, rfl⟩ := (target_joining hop).mp ht
    obtain ⟨d, hd⟩ := hsent l hl
    rcases (hends l hl).2 with ⟨-, herror⟩ | ⟨hnot, -⟩
    · cases hd.symm.trans herror
    · exact hnot hvanishes
  · obtain ⟨hmem, hcases⟩ := hends l hl
    rcases hcases with ⟨hvanishes, herror'⟩ | ⟨-, d, hd, -⟩
    · cases herror.symm.trans herror'
      exact .inr ⟨l.target, hmem, hvanishes, hstop⟩
    · cases herror.symm.trans hd

/-- Extents go together in any order and any grouping. A gradient of what they are together is
summed back to an operand, and an operation on the two passes it on, exactly if no axis of extent 1
stands for an empty one. -/
theorem broadcast_reduces :
    (∀ a b : Extents, a.broadcast? b = b.broadcast? a) ∧
    (∀ a b c : Extents,
      (a.broadcast? b).bind (·.broadcast? c) = (b.broadcast? c).bind a.broadcast?) ∧
    (∀ a b s : Extents, a.broadcast? b = some s → ∀ t ∈ [a, b], ∀ g : DenseArray α, g.extents = s →
      (t.Vanishes s ∧ g.reduceTo t =
        .error (.shapeMismatch "gradient reduction" (.extents t) (.extents s))) ∨
      (¬t.Vanishes s ∧ ∃ d, g.reduceTo t = .ok d ∧ d.extents = t)) ∧
    ∀ (f : Joining) (x y : Tensor) (w w' : Workspace α) (id : Nat),
      f.run x y w = (.ok (.node id), w') →
      let s := (w'.value (.node id)).extents
      (w.value x).extents.broadcast? (w.value y).extents = some s ∧
      ∀ u g, (w'.origin (.node id)).isSome = true → u.origin (.node id) = w'.origin (.node id) →
        (∀ t ∈ [x, y], (u.value t).extents = (w.value t).extents) →
        u.gradient (.node id) = some g → g.extents = s →
        ((passOn id u).1 = .ok () ∧ ∀ t ∈ [x, y], ¬(w.value t).extents.Vanishes s) ∨
        ∃ t ∈ [x, y], (w.value t).extents.Vanishes s ∧
          (passOn id u).1 = .error (.shapeMismatch "gradient reduction"
            (.extents (w.value t).extents) (.extents s)) := by
  refine ⟨Extents.broadcast?_comm, Extents.broadcast?_assoc, ?_, ?_⟩
  · rintro a b s hs t ht g rfl
    have h := Extents.broadcast?_eq_some_iff.mp hs
    have hspreads : t.Spreads g.extents := by
      rcases List.mem_pair.mp ht with rfl | rfl
      · exact h.spreads_left
      · exact h.spreads_right
    exact DenseArray.reduceTo_of_spreads hspreads
  · intro f x y w w' id hrun
    obtain ⟨data, h, hrecord⟩ := Joining.run_ok hrun
    rw [value_record hrecord]
    refine ⟨Extents.broadcast?_eq_some_iff.mpr h, ?_⟩
    intro u g hrecorded horigin hoperands hg hextents
    obtain ⟨op, hop⟩ := Option.isSome_iff_exists.mp hrecorded
    obtain rfl := origin_record hrecord hop
    have hspreads : ∀ t ∈ [x, y], (u.value t).extents.Spreads g.extents := by
      intro t ht
      rw [hoperands t ht, hextents]
      rcases List.mem_pair.mp ht with rfl | rfl
      · exact h.spreads_left
      · exact h.spreads_right
    have hends := passOn_joining (horigin.trans hop) hg hspreads
    rw [hextents] at hends
    refine hends.imp (fun ⟨hok, hnot⟩ => ⟨hok, fun t ht => hoperands t ht ▸ hnot t ht⟩) ?_
    rintro ⟨t, ht, hvanishes, herror⟩
    rw [hoperands t ht] at hvanishes herror
    exact ⟨t, ht, hvanishes, herror⟩

end Scalar

section Example

/-- A single entry, an array without an entry, and a number. -/
def oneAndNone : Workspace Single :=
  let node (data : DenseArray Single) : Node Single := ⟨data, none, true, none⟩
  { Workspace.seeded 0 with
    nodes := #[node ⟨[1], #[.one], rfl⟩, node ⟨[0], #[], rfl⟩, node (.scalar .one)] }

/-- A number stands for no entry along an axis that it does not have. -/
theorem broadcast_reduces_number :
    let w' := ((Tensor.node 2).add (.node 1) oneAndNone).2
    let u := (addGradient (.node 3) (.ones [0]) w').2
    (Tensor.node 2).add (.node 1) oneAndNone = (.ok (.node 3), w') ∧
      Extents.broadcast? [] [0] = some [0] ∧ (passOn 3 u).1 = .ok () := by
  intro w' u
  have hrun : (Tensor.node 2).add (.node 1) oneAndNone = (.ok (.node 3), w') :=
    eq_of_fst (by decide +kernel)
  have hextents : (w'.value (.node 3)).extents = [0] := by decide +kernel
  obtain ⟨hbroadcast, hpassed⟩ :=
    (broadcast_reduces (α := Single)).2.2.2 .add (.node 2) (.node 1) oneAndNone w' 3 hrun
  rw [hextents] at hbroadcast hpassed
  refine ⟨hrun, hbroadcast, ?_⟩
  rcases hpassed u (.ones [0]) (by decide +kernel) rfl (by decide +kernel) (by decide +kernel) rfl
    with ⟨hok, -⟩ | ⟨t, ht, ⟨k, hk, hone, -⟩, -⟩
  · exact hok
  · rcases List.mem_pair.mp ht with rfl | rfl
    · exact absurd hk (Nat.not_lt_zero k)
    · obtain rfl := Nat.lt_one_iff.mp hk
      cases hone

/-- A single entry stands for no entry along its own axis, and the way back fails. -/
theorem broadcast_reduces_fails :
    let w' := ((Tensor.node 0).add (.node 1) oneAndNone).2
    Extents.broadcast? [1] [0] = some [0] ∧
      ((Tensor.node 0).add (.node 1) oneAndNone).1 = .ok (.node 3) ∧
      (backward (.node 3) w').1 =
        .error (.shapeMismatch "gradient reduction" (.extents [1]) (.extents [0])) := by
  decide +kernel

end Example

end Run

end NeuralNet
