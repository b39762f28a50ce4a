import NeuralNet.Loss
import NeuralNet.Proofs.Tape.Context
import NeuralNet.Tape.Backward

/-!
# Computing on top of a tape

What is on the tape already makes no difference to a computation that does not refer to it. With
other nodes below, the computation has the same outcome, and every handle on a node that it makes is
raised by their number.

* `Run.OnTop`: a computation and the same one with raised handles;
* `Run.OnTop.backward`: gradients sent back over the upper part of a tape.
-/

namespace NeuralNet

variable {α β γ δ ε : Type}

/-- The handle when there are `n` more nodes below. -/
def Tensor.raise (n : Nat) : Tensor → Tensor
  | .weight i => .weight i
  | .node id => .node (n + id)

namespace Operation

def raise (n : Nat) : Operation α → Operation α
  | add a b => add (a.raise n) (b.raise n)
  | sub a b => sub (a.raise n) (b.raise n)
  | mul a b => mul (a.raise n) (b.raise n)
  | scale a factor => scale (a.raise n) factor
  | sum a => sum (a.raise n)
  | relu a => relu (a.raise n)
  | sigmoid a result => sigmoid (a.raise n) result
  | tanh a result => tanh (a.raise n) result
  | logSoftmax a result => logSoftmax (a.raise n) result
  | rearrange a source r => rearrange (a.raise n) source r
  | concat parts axis lengths => concat (parts.map (·.raise n)) axis lengths
  | matmul a b left right => matmul (a.raise n) (b.raise n) left right
  | convolve x w bias c input weight =>
    convolve (x.raise n) (w.raise n) (bias.map (·.raise n)) c input weight
  | normalize x gamma beta m => normalize (x.raise n) (gamma.raise n) (beta.raise n) m
  | mask a m => mask (a.raise n) m
  | meanSquare a out target => meanSquare (a.raise n) out target
  | crossEntropy a logits targets => crossEntropy (a.raise n) logits targets

theorem inputs_raise (n : Nat) (op : Operation α) :
    (op.raise n).inputs = op.inputs.map (·.raise n) := by
  cases op with
  | convolve x w bias => cases bias <;> rfl
  | _ => rfl

theorem pullback_raise [Scalar α] (n : Nat) (op : Operation α) (value : Tensor → DenseArray α)
    (position : Nat) (g : DenseArray α) :
    (op.raise n).pullback value position g = op.pullback (fun t => value (t.raise n)) position g := by
  cases op
  case add | sub | mul | matmul => cases position <;> rfl
  case convolve | normalize => rcases position with _ | _ | position <;> rfl
  all_goals rfl

end Operation

def Node.raise (n : Nat) (node : Node α) : Node α :=
  { node with origin := node.origin.map (·.raise n) }

namespace Workspace

variable (P : Array (Node α)) (w : Workspace α) (t : Tensor)

/-- The workspace with these nodes below its own. -/
def onTop : Workspace α := { w with nodes := P ++ w.nodes.map (·.raise P.size) }

theorem getElem?_onTop (id : Nat) :
    (w.onTop P).nodes[P.size + id]? = w.nodes[id]?.map (·.raise P.size) := by
  rw [onTop, Array.getElem?_append, if_neg (by omega), Nat.add_sub_cancel_left, Array.getElem?_map]

theorem size_onTop : (w.onTop P).nodes.size = P.size + w.nodes.size := by
  rw [onTop, Array.size_append, Array.size_map]

@[simp]
theorem slot_onTop (i : Nat) : (w.onTop P).slot i = w.slot i := rfl

@[simp]
theorem value_onTop : (w.onTop P).value (t.raise P.size) = w.value t := by
  cases t with
  | weight i => rfl
  | node id =>
    simp only [Tensor.raise, value, getElem?_onTop, Option.map_map]
    rfl

@[simp]
theorem gradient_onTop : (w.onTop P).gradient (t.raise P.size) = w.gradient t := by
  cases t with
  | weight i => rfl
  | node id =>
    simp only [Tensor.raise, gradient, getElem?_onTop]
    cases w.nodes[id]? <;> rfl

@[simp]
theorem requiresGrad_onTop : (w.onTop P).requiresGrad (t.raise P.size) = w.requiresGrad t := by
  cases t with
  | weight i => rfl
  | node id =>
    simp only [Tensor.raise, requiresGrad, getElem?_onTop, Option.map_map]
    rfl

theorem onTop_push (node : Node α) :
    ({ w with nodes := w.nodes.push node } : Workspace α).onTop P =
      { w.onTop P with nodes := (w.onTop P).nodes.push (node.raise P.size) } := by
  simp [onTop]

/-- A change of a node that leaves its origin. -/
theorem onTop_modifyNode (id : Nat) {f : Node α → Node α}
    (hf : ∀ node, (f node).raise P.size = f (node.raise P.size)) :
    (w.modifyNode id f).onTop P = (w.onTop P).modifyNode (P.size + id) f := by
  have hnodes : P ++ (w.nodes.modify id f).map (·.raise P.size) =
      (P ++ w.nodes.map (·.raise P.size)).modify (P.size + id) f := by
    refine Array.ext_getElem? fun k => ?_
    rw [Array.getElem?_modify, Array.getElem?_append, Array.getElem?_append, Array.getElem?_map,
      Array.getElem?_map, Array.getElem?_modify]
    by_cases hk : k < P.size
    · rw [if_pos hk, if_pos hk, if_neg (by omega)]
    · rw [if_neg hk, if_neg hk]
      by_cases hid : id = k - P.size
      · rw [if_pos hid, if_pos (by omega), Option.map_map, Option.map_map]
        congr 1
        exact funext hf
      · rw [if_neg hid, if_neg (by omega)]
  simp only [onTop, modifyNode, hnodes]

theorem onTop_setGradient (g : Option (DenseArray α)) :
    (w.setGradient t g).onTop P = (w.onTop P).setGradient (t.raise P.size) g := by
  cases t with
  | weight i => rfl
  | node id => exact w.onTop_modifyNode P id fun _ => rfl

theorem onTop_setValue (a : DenseArray α) :
    (w.setValue t a).onTop P = (w.onTop P).setValue (t.raise P.size) a := by
  cases t with
  | weight i => rfl
  | node id => exact w.onTop_modifyNode P id fun _ => rfl

theorem sources_onTop (id : Nat) :
    (w.onTop P).sources (P.size + id) = (w.sources id).map (P.size + ·) := by
  have horigin : (w.onTop P).nodes[P.size + id]?.bind (·.origin) =
      (w.nodes[id]?.bind (·.origin)).map (·.raise P.size) := by
    rw [getElem?_onTop]
    cases w.nodes[id]? <;> rfl
  rw [sources, sources, horigin]
  cases w.nodes[id]?.bind (·.origin) with
  | none => rfl
  | some op =>
    simp only [Option.map_some, Operation.inputs_raise, List.filterMap_map, List.map_filterMap]
    congr 1
    funext t
    cases t with
    | weight i => rfl
    | node source => by_cases h : source < id <;> simp [Tensor.raise, h]

theorem visit_onTop (id : Nat) (done : List Nat) :
    (w.onTop P).visit (P.size + id) (done.map (P.size + ·)) =
      (w.visit id done).map (P.size + ·) := by
  induction id using Nat.strongRecOn generalizing done with
  | ind id ih =>
    have hmem : P.size + id ∈ done.map (P.size + ·) ↔ id ∈ done := by simp
    rw [visit, visit]
    by_cases hid : id ∈ done
    · rw [if_pos hid, if_pos (hmem.mpr hid)]
    · rw [if_neg hid, if_neg (mt hmem.mp hid), List.map_cons,
        List.foldl_attach (f := fun done s => (w.onTop P).visit s done),
        List.foldl_attach (f := fun done s => w.visit s done), sources_onTop]
      congr 1
      -- every source is visited in the state that the ones before it leave
      have hfold : ∀ sources : List Nat, (∀ s ∈ sources, s < id) → ∀ done : List Nat,
          (sources.map (P.size + ·)).foldl (fun done s => (w.onTop P).visit s done)
            (done.map (P.size + ·)) =
          (sources.foldl (fun done s => w.visit s done) done).map (P.size + ·) := by
        intro sources hsources
        induction sources with
        | nil => intro done; rfl
        | cons s sources ihs =>
          intro done
          obtain ⟨hs, hsources⟩ := List.forall_mem_cons.mp hsources
          rw [List.map_cons, List.foldl_cons, List.foldl_cons, ih s hs]
          exact ihs hsources _
      exact hfold (w.sources id) (fun s hs => lt_of_mem_sources hs) done

theorem order_onTop : (w.onTop P).order (t.raise P.size) = (w.order t).map (P.size + ·) := by
  cases t with
  | weight i => rfl
  | node id => exact w.visit_onTop P id []

end Workspace

namespace Run

variable {P : Array (Node α)} {w : Workspace α}

/-- On top of these nodes the second computation does what the first one does alone; `f` raises the
handles in the result. -/
def OnTop (P : Array (Node α)) (f : β → γ) (x : Run α β) (y : Run α γ) : Prop :=
  ∀ w, y (w.onTop P) = ((x w).1.map f, (x w).2.onTop P)

theorem OnTop.pure {f : β → γ} {b : β} {c : γ} (h : c = f b) :
    OnTop P f (Pure.pure b : Run α β) (Pure.pure c) := by
  subst h
  exact fun _ => rfl

theorem OnTop.throw (f : β → γ) (e : Error) :
    OnTop P f (MonadExcept.throw e : Run α β) (MonadExcept.throw e) :=
  fun _ => rfl

theorem OnTop.raise (f : γ → δ) (e : Error) (k : β → Run α γ) (l : β → Run α δ) :
    OnTop P f (MonadExcept.throw e >>= k) (MonadExcept.throw e >>= l) := fun _ => rfl

theorem onTop_bind {x : Run α β} {y : Run α γ} {k : β → Run α δ} {l : γ → Run α ε} {f : β → γ}
    {g : δ → ε} (hx : y (w.onTop P) = ((x w).1.map f, (x w).2.onTop P))
    (hk : ∀ b, OnTop P g (k b) (l (f b))) :
    (y >>= l) (w.onTop P) = (((x >>= k) w).1.map g, ((x >>= k) w).2.onTop P) := by
  rw [bind_apply, bind_apply, hx]
  match x w with
  | (.ok b, w') => exact hk b w'
  | (.error e, w') => rfl

theorem OnTop.bind {x : Run α β} {y : Run α γ} {k : β → Run α δ} {l : γ → Run α ε} {f : β → γ}
    {g : δ → ε} (hx : OnTop P f x y) (hk : ∀ b, OnTop P g (k b) (l (f b))) :
    OnTop P g (x >>= k) (y >>= l) := fun w => onTop_bind (hx w) hk

theorem OnTop.map {x : Run α β} {y : Run α γ} {k : β → δ} {l : γ → ε} {f : β → γ} {g : δ → ε}
    (hx : OnTop P f x y) (h : ∀ b, l (f b) = g (k b)) : OnTop P g (k <$> x) (l <$> y) := by
  rw [map_eq_pure_bind, map_eq_pure_bind]
  exact hx.bind fun b => .pure (h b)

theorem OnTop.mapM {f : β → γ} {g : δ → ε} {k : β → Run α δ} {l : γ → Run α ε} (bs : List β)
    (hk : ∀ b, OnTop P g (k b) (l (f b))) :
    OnTop P (List.map g) (bs.mapM k) ((bs.map f).mapM l) := by
  induction bs with
  | nil => exact .pure rfl
  | cons b bs ih =>
    rw [List.map_cons, List.mapM_cons, List.mapM_cons]
    exact (hk b).bind fun d => ih.bind fun ds => .pure rfl

theorem OnTop.forM {f : β → γ} {k : β → Run α Unit} {l : γ → Run α Unit} (bs : List β)
    (hk : ∀ b, OnTop P id (k b) (l (f b))) : OnTop P id (bs.forM k) ((bs.map f).forM l) := by
  induction bs with
  | nil => exact .pure rfl
  | cons b bs ih => exact (hk b).bind fun _ => ih

theorem OnTop.check (y : Except Error β) : OnTop P id (check y : Run α β) (check y) := by
  intro w
  cases y <;> rfl

theorem OnTop.value (t : Tensor) :
    OnTop P id (value t : Run α (DenseArray α)) (value (t.raise P.size)) := by
  intro w
  exact congrArg (fun a => ((.ok a : Except Error _), w.onTop P)) (w.value_onTop P t)

theorem OnTop.weight (i : Nat) :
    OnTop P (·.raise P.size) (weight i : Run α Tensor) (weight i) := by
  intro w
  unfold Run.weight
  rw [bind_apply, bind_apply, get_apply, get_apply]
  dsimp only
  rw [bind_apply, bind_apply, check_apply, check_apply, w.slot_onTop]
  cases (w.slot i).require <;> rfl

theorem OnTop.leaf (data : DenseArray α) (grad : Bool) :
    OnTop P (·.raise P.size) (leaf data grad : Run α Tensor) (leaf data grad) := by
  intro w
  refine Prod.ext ?_ (w.onTop_push P ⟨data, none, grad, none⟩).symm
  exact congrArg (fun n => (.ok (.node n) : Except Error Tensor)) (w.size_onTop P)

theorem record_apply (op : Operation α) (data : DenseArray α) (w : Workspace α) :
    record op data w =
      (.ok (.node w.nodes.size), { w with nodes := w.nodes.push ⟨data, none,
        w.pauses == 0 && op.inputs.any w.requiresGrad,
        if w.pauses == 0 && op.inputs.any w.requiresGrad then some op else none⟩ }) := rfl

theorem OnTop.record (op : Operation α) (data : DenseArray α) :
    OnTop P (·.raise P.size) (record op data) (record (op.raise P.size) data) := by
  intro w
  have hwants : ((w.onTop P).pauses == 0 &&
      (op.raise P.size).inputs.any (w.onTop P).requiresGrad) =
      (w.pauses == 0 && op.inputs.any w.requiresGrad) := by
    rw [op.inputs_raise, List.any_map]
    congr 2
    exact funext (w.requiresGrad_onTop P)
  rw [record_apply, record_apply, w.size_onTop, hwants]
  refine Prod.ext rfl ?_
  rw [Workspace.onTop_push]
  cases w.pauses == 0 && op.inputs.any w.requiresGrad <;> rfl

theorem OnTop.draw (d : Draw β) : OnTop P id (draw d : Run α β) (draw d) := fun _ => rfl

/-- What is read is not changed by the nodes below. -/
theorem onTop_get {k : Workspace α → Run α β} {l : Workspace α → Run α γ} {f : β → γ}
    (hk : l (w.onTop P) (w.onTop P) = ((k w w).1.map f, (k w w).2.onTop P)) :
    (get >>= l) (w.onTop P) = (((get >>= k) w).1.map f, ((get >>= k) w).2.onTop P) := hk

/-! ## Operations -/

theorem OnTop.unary (a : Tensor) {op op' : DenseArray α → Operation α}
    (hop : ∀ x, op' x = (op x).raise P.size) (y : DenseArray α → DenseArray α) :
    OnTop P (·.raise P.size) (Run.value a >>= fun x => Run.record (op x) (y x))
      (Run.value (a.raise P.size) >>= fun x => Run.record (op' x) (y x)) := by
  refine (OnTop.value a).bind fun x => ?_
  rw [id, hop]
  exact .record _ _

theorem OnTop.binary (a b : Tensor) {op op' : DenseArray α → DenseArray α → Operation α}
    (hop : ∀ x x', op' x x' = (op x x').raise P.size)
    (y : DenseArray α → DenseArray α → Except Error (DenseArray α)) :
    OnTop P (·.raise P.size)
      (Run.value a >>= fun x => Run.value b >>= fun x' =>
        Run.check (y x x') >>= fun z => Run.record (op x x') z)
      (Run.value (a.raise P.size) >>= fun x => Run.value (b.raise P.size) >>= fun x' =>
        Run.check (y x x') >>= fun z => Run.record (op' x x') z) := by
  refine (OnTop.value a).bind fun x => (OnTop.value b).bind fun x' => ?_
  refine (OnTop.check _).bind fun z => ?_
  simp only [id, hop]
  exact .record _ _

variable [Scalar α]

theorem OnTop.add (a b : Tensor) :
    OnTop P (·.raise P.size) (a.add b : Run α Tensor)
      ((a.raise P.size).add (b.raise P.size)) := .binary a b (fun _ _ => rfl) _

theorem OnTop.sub (a b : Tensor) :
    OnTop P (·.raise P.size) (a.sub b : Run α Tensor)
      ((a.raise P.size).sub (b.raise P.size)) := .binary a b (fun _ _ => rfl) _

theorem OnTop.mul (a b : Tensor) :
    OnTop P (·.raise P.size) (a.mul b : Run α Tensor)
      ((a.raise P.size).mul (b.raise P.size)) := .binary a b (fun _ _ => rfl) _

theorem OnTop.matmul (a b : Tensor) :
    OnTop P (·.raise P.size) (a.matmul b : Run α Tensor)
      ((a.raise P.size).matmul (b.raise P.size)) := .binary a b (fun _ _ => rfl) _

theorem OnTop.relu (a : Tensor) :
    OnTop P (·.raise P.size) (a.relu : Run α Tensor) (a.raise P.size).relu :=
  .unary a (fun _ => rfl) _

theorem OnTop.sigmoid (a : Tensor) :
    OnTop P (·.raise P.size) (a.sigmoid : Run α Tensor) (a.raise P.size).sigmoid :=
  .unary a (fun _ => rfl) _

theorem OnTop.tanh (a : Tensor) :
    OnTop P (·.raise P.size) (a.tanh : Run α Tensor) (a.raise P.size).tanh :=
  .unary a (fun _ => rfl) _

theorem OnTop.rearrange (a : Tensor) (plan : Extents → Except Error Rearrangement) :
    OnTop P (·.raise P.size) (a.rearrange plan : Run α Tensor)
      ((a.raise P.size).rearrange plan) :=
  (OnTop.value a).bind fun _ => (OnTop.check _).bind fun _ => .record _ _

theorem OnTop.concat (parts : List Tensor) (axis : Nat) :
    OnTop P (·.raise P.size) (Tensor.concat parts axis : Run α Tensor)
      (Tensor.concat (parts.map (·.raise P.size)) axis) := by
  refine fun w => onTop_get ?_
  have harrays : (parts.map (·.raise P.size)).map (w.onTop P).value = parts.map w.value := by
    rw [List.map_map]
    exact List.map_congr_left fun t _ => w.value_onTop P t
  simp only [harrays]
  exact onTop_bind (OnTop.check _ w) fun _ => .record _ _

theorem OnTop.stack (parts : List Tensor) (axis : Nat) :
    OnTop P (·.raise P.size) (Tensor.stack parts axis : Run α Tensor)
      (Tensor.stack (parts.map (·.raise P.size)) axis) := by
  refine OnTop.bind (.mapM parts fun t => (OnTop.value t).bind fun x => ?_) fun raised =>
    .concat raised axis
  dsimp only [id]
  split
  · exact .rearrange t _
  · exact .throw _ _

theorem OnTop.embedding (ids table : Tensor) :
    OnTop P (·.raise P.size) (ids.embedding table : Run α Tensor)
      ((ids.raise P.size).embedding (table.raise P.size)) := by
  refine (OnTop.value table).bind fun t => ?_
  dsimp only [id]
  split
  · exact (OnTop.value ids).bind fun _ => (OnTop.check _).bind fun _ =>
      (OnTop.check _).bind fun _ => .record _ _
  · exact .throw _ _

theorem OnTop.convolve (x w : Tensor) (bias : Option Tensor) (stride padding : List Nat) :
    OnTop P (·.raise P.size) (x.convolve w bias stride padding : Run α Tensor)
      ((x.raise P.size).convolve (w.raise P.size) (bias.map (·.raise P.size)) stride padding) := by
  refine (OnTop.value x).bind fun _ => (OnTop.value w).bind fun _ => ?_
  refine (OnTop.check _).bind fun c => ?_
  cases bias with
  | none => exact .record _ _
  | some b =>
    refine OnTop.bind (f := id) (fun w => ?_) fun shift => ?_
    · exact congrArg (fun a => ((.ok (some a) : Except Error _), w.onTop P)) (w.value_onTop P b)
    · dsimp only [id]
      split
      · split
        · exact .raise _ _ _ _
        · exact .record _ _
      · exact .record _ _

omit [Scalar α] in
theorem OnTop.perChannel (t : Tensor) (channels : Nat) (what : String) :
    OnTop P id (t.perChannel channels what : Run α (DenseArray α))
      ((t.raise P.size).perChannel channels what) := by
  refine (OnTop.value t).bind fun a => ?_
  dsimp only [id]
  split
  · exact .pure rfl
  · exact .throw _ _

omit [Scalar α] in
theorem OnTop.setValue (t : Tensor) (a : DenseArray α) :
    OnTop P id (modify (·.setValue t a) : Run α Unit)
      (modify (·.setValue (t.raise P.size) a)) := by
  intro w
  exact congrArg (fun w' => ((.ok () : Except Error Unit), w')) (w.onTop_setValue P t a).symm

theorem OnTop.normalize (x gamma beta mean variance : Tensor) (how : Tensor.Normalization) :
    OnTop P (·.raise P.size) (x.normalize gamma beta mean variance how : Run α Tensor)
      ((x.raise P.size).normalize (gamma.raise P.size) (beta.raise P.size) (mean.raise P.size)
        (variance.raise P.size) how) := by
  refine (OnTop.value x).bind fun input => ?_
  dsimp only [id]
  split
  · exact .raise _ _ _ _
  · refine (OnTop.perChannel _ _ _).bind fun _ => (OnTop.perChannel _ _ _).bind fun _ => ?_
    refine (OnTop.perChannel _ _ _).bind fun _ => (OnTop.perChannel _ _ _).bind fun _ => ?_
    dsimp only [id]
    split
    · exact (OnTop.setValue _ _).bind fun _ => (OnTop.setValue _ _).bind fun _ => .record _ _
    · exact .record _ _

theorem OnTop.dropout (a : Tensor) (probability : Single) :
    OnTop P (·.raise P.size) (a.dropout probability : Run α Tensor)
      ((a.raise P.size).dropout probability) := by
  unfold Tensor.dropout
  dsimp only
  split
  · exact .raise _ _ _ _
  · split
    · exact .pure rfl
    · exact (OnTop.value a).bind fun _ => (OnTop.draw _).bind fun _ => (OnTop.check _).bind fun _ =>
        .record _ _

/-! ## Gradients -/

theorem OnTop.loss (l : Loss) (prediction label : Tensor) :
    OnTop P (·.raise P.size) (l.apply prediction label : Run α Tensor)
      (l.apply (prediction.raise P.size) (label.raise P.size)) := by
  cases l with
  | l2 =>
    refine (OnTop.value _).bind fun out => (OnTop.value _).bind fun target => ?_
    dsimp only [id]
    split
    · exact .raise _ _ _ _
    · exact .record _ _
  | softmaxCrossEntropy =>
    refine (OnTop.value _).bind fun logits => ?_
    dsimp only [id]
    split
    · exact .throw _ _
    · exact (OnTop.value _).bind fun _ => (OnTop.check _).bind fun _ => .record _ _

theorem OnTop.addGradient (t : Tensor) (g : DenseArray α) :
    OnTop P id (addGradient t g : Run α Unit) (addGradient (t.raise P.size) g) := by
  refine fun w => onTop_get ?_
  simp only [Workspace.requiresGrad_onTop, Workspace.value_onTop, Workspace.gradient_onTop]
  split
  · split
    · exact congrArg (fun w' => ((.ok () : Except Error Unit), w')) (w.onTop_setGradient P t _).symm
    · rfl
  · rfl

omit [Scalar α] in
theorem OnTop.dropGradient (t : Tensor) :
    OnTop P id (dropGradient t : Run α Unit) (dropGradient (t.raise P.size)) := by
  intro w
  exact congrArg (fun w' => ((.ok () : Except Error Unit), w')) (w.onTop_setGradient P t none).symm

theorem OnTop.passOn (i : Nat) :
    OnTop P id (passOn i : Run α Unit) (passOn (P.size + i)) := by
  refine fun w => onTop_get ?_
  rw [w.getElem?_onTop]
  cases w.nodes[i]? with
  | none => rfl
  | some node =>
    obtain ⟨data, grad, wants, origin⟩ := node
    cases grad with
    | none => rfl
    | some g =>
      cases origin with
      | none => rfl
      | some op =>
        dsimp only [Option.map_some, Node.raise]
        rw [op.inputs_raise, List.zipIdx_map]
        refine OnTop.forM (f := Prod.map (Tensor.raise P.size) id) _ (fun p => ?_) w
        refine fun w => onTop_get ?_
        obtain ⟨t, position⟩ := p
        dsimp only [Prod.map, id]
        have hvalue : (fun t => (w.onTop P).value (t.raise P.size)) = w.value :=
          funext (w.value_onTop P)
        rw [op.pullback_raise, hvalue]
        exact onTop_bind (OnTop.check _ w) fun _ => .addGradient t _

theorem OnTop.backward (root : Tensor) :
    OnTop P id (backward root : Run α Unit) (backward (root.raise P.size)) := by
  refine fun w => onTop_get ?_
  rw [w.value_onTop, w.order_onTop]
  exact onTop_bind (OnTop.addGradient _ _ w) fun _ => .forM _ fun id => .passOn id

end Run

end NeuralNet
