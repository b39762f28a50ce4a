import NeuralNet.Loss
import NeuralNet.Proofs.Tape.Context
import NeuralNet.Tape.Backward

/-!
# What computing leaves alone

Operations read arrays, draw random numbers and put results on the tape. A frame is a relation
between the workspaces before and after that bears this, so it holds across every operation.
Normalizing in training also moves the running statistics, and sending gradients back stores them:
a frame that bears these steps holds across the whole.
-/

namespace NeuralNet

variable {α β γ : Type}

/-- A relation between a workspace and later ones. -/
structure Frame (α : Type) where
  Rel : Workspace α → Workspace α → Prop
  refl : ∀ w, Rel w w
  trans : ∀ {w₁ w₂ w₃}, Rel w₁ w₂ → Rel w₂ w₃ → Rel w₁ w₃
  /-- A node is put on the tape. -/
  push : ∀ w node, Rel w { w with nodes := w.nodes.push node }
  /-- Random numbers are drawn in training. -/
  random : ∀ w source, w.training = true → Rel w { w with random := source }

/-- In training the array may get other values. -/
def Frame.Moves (F : Frame α) (t : Tensor) : Prop :=
  ∀ w a, w.training = true → a.extents = (w.value t).extents → F.Rel w (w.setValue t a)

/-- Whatever comes of the computation, the frame holds. -/
def Run.Keeps (F : Frame α) (x : Run α β) : Prop := ∀ w, F.Rel w (x w).2

variable {F : Frame α} {x : Run α β} {f : β → Run α γ} {w : Workspace α}

namespace Run

theorem Keeps.pure (b : β) : Keeps F (Pure.pure b : Run α β) := F.refl

theorem Keeps.throw (e : Error) : Keeps F (throw e : Run α β) := F.refl

/-- After a failure nothing runs. -/
theorem Keeps.raise (e : Error) (f : β → Run α γ) : Keeps F (MonadExcept.throw e >>= f) := F.refl

theorem Keeps.check (y : Except Error β) : Keeps F (check y : Run α β) := F.refl

theorem Keeps.get : Keeps F (get : Run α (Workspace α)) := F.refl

theorem Keeps.value (t : Tensor) : Keeps F (value t : Run α (DenseArray α)) := F.refl

theorem rel_bind (hx : F.Rel w (x w).2) (hf : ∀ b, Keeps F (f b)) : F.Rel w ((x >>= f) w).2 := by
  rw [bind_apply]
  match x w, hx with
  | (.ok b, w'), hx => exact F.trans hx (hf b w')
  | (.error e, w'), hx => exact hx

theorem Keeps.bind (hx : Keeps F x) (hf : ∀ b, Keeps F (f b)) : Keeps F (x >>= f) :=
  fun w => rel_bind (hx w) hf

theorem Keeps.map (f : β → γ) (hx : Keeps F x) : Keeps F (f <$> x) := by
  rw [map_eq_pure_bind]
  exact hx.bind fun b => .pure (f b)

theorem Keeps.mapM {f : γ → Run α β} (cs : List γ) (hf : ∀ c, Keeps F (f c)) :
    Keeps F (cs.mapM f) := by
  induction cs with
  | nil => exact .pure []
  | cons c cs ih =>
    rw [List.mapM_cons]
    exact (hf c).bind fun b => ih.bind fun bs => .pure (b :: bs)

theorem Keeps.forM {f : γ → Run α Unit} (cs : List γ) (hf : ∀ c, Keeps F (f c)) :
    Keeps F (cs.forM f) := by
  induction cs with
  | nil => exact .pure ()
  | cons c cs ih =>
    exact (hf c).bind fun _ => ih

theorem Keeps.record (op : Operation α) (data : DenseArray α) : Keeps F (record op data) :=
  fun w => F.push w _

theorem Keeps.leaf (data : DenseArray α) (grad : Bool) : Keeps F (leaf data grad) :=
  fun w => F.push w _

theorem rel_draw (d : Draw β) (hw : w.training = true) : F.Rel w ((draw d : Run α β) w).2 :=
  F.random w _ hw

theorem Keeps.weight (i : Nat) : Keeps F (weight i : Run α Tensor) :=
  Keeps.get.bind fun _ => (Keeps.check _).bind fun _ => .pure _

theorem rel_get {f : Workspace α → Run α γ} (h : F.Rel w (f w w).2) :
    F.Rel w ((get >>= f) w).2 := h

/-- The handle of a parameter is known before it is asked for. -/
theorem rel_weight {f : Tensor → Run α γ} {i : Nat} (h : F.Rel w (f (.weight i) w).2) :
    F.Rel w ((weight i >>= f) w).2 := by
  unfold Run.weight
  rw [bind_apply, bind_apply, get_apply]
  dsimp only
  rw [bind_apply, check_apply]
  cases (w.slot i).require with
  | error e => exact F.refl w
  | ok c => exact h

end Run

namespace Workspace

theorem training_setValue (w : Workspace α) (t : Tensor) (a : DenseArray α) :
    (w.setValue t a).training = w.training := by
  cases t <;> rfl

/-- New values of the same extents leave the extents of all arrays. -/
theorem extents_value_setValue {t : Tensor} {a : DenseArray α} (u : Tensor)
    (h : a.extents = (w.value t).extents) :
    ((w.setValue t a).value u).extents = (w.value u).extents := by
  cases t with
  | weight i =>
    cases u with
    | node id => rfl
    | weight j =>
      by_cases hij : i = j
      · subst hij
        simp only [setValue, modifyContent, modifySlot, value, content?, Array.getElem?_modify,
          if_true] at h ⊢
        cases hslot : w.slots[i]? with
        | none => rfl
        | some p =>
          cases hp : p.content with
          | none => simp [hp]
          | some c => simpa [hslot, hp] using h
      · simp [setValue, modifyContent, modifySlot, value, content?, Array.getElem?_modify, hij]
  | node i =>
    cases u with
    | weight j => rfl
    | node j =>
      by_cases hij : i = j
      · subst hij
        simp only [setValue, modifyNode, value, Array.getElem?_modify, if_true] at h ⊢
        cases hnode : w.nodes[i]? with
        | none => rfl
        | some n => simpa [hnode] using h
      · simp [setValue, modifyNode, value, Array.getElem?_modify, hij]

end Workspace

/-! ## Operations -/

namespace Run

/-- An operation on one array. -/
theorem Keeps.unary (a : Tensor) (op : DenseArray α → Operation α)
    (y : DenseArray α → DenseArray α) :
    Keeps F (Run.value a >>= fun x => Run.record (op x) (y x)) :=
  (Keeps.value a).bind fun _ => .record _ _

/-- An operation on two arrays that may not go together. -/
theorem Keeps.binary (a b : Tensor) (op : DenseArray α → DenseArray α → Operation α)
    (y : DenseArray α → DenseArray α → Except Error (DenseArray α)) :
    Keeps F (Run.value a >>= fun x => Run.value b >>= fun x' =>
      Run.check (y x x') >>= fun z => Run.record (op x x') z) :=
  (Keeps.value a).bind fun _ => (Keeps.value b).bind fun _ => (Keeps.check _).bind fun _ =>
    .record _ _

variable [Scalar α]

theorem Keeps.add (a b : Tensor) : Keeps F (a.add b : Run α Tensor) := .binary a b _ _

theorem Keeps.sub (a b : Tensor) : Keeps F (a.sub b : Run α Tensor) := .binary a b _ _

theorem Keeps.mul (a b : Tensor) : Keeps F (a.mul b : Run α Tensor) := .binary a b _ _

theorem Keeps.matmul (a b : Tensor) : Keeps F (a.matmul b : Run α Tensor) := .binary a b _ _

theorem Keeps.relu (a : Tensor) : Keeps F (a.relu : Run α Tensor) := .unary a _ _

theorem Keeps.sigmoid (a : Tensor) : Keeps F (a.sigmoid : Run α Tensor) := .unary a _ _

theorem Keeps.tanh (a : Tensor) : Keeps F (a.tanh : Run α Tensor) := .unary a _ _

theorem Keeps.rearrange (a : Tensor) (plan : Extents → Except Error Rearrangement) :
    Keeps F (a.rearrange plan : Run α Tensor) :=
  (Keeps.value a).bind fun _ => (Keeps.check _).bind fun _ => .record _ _

theorem Keeps.concat (parts : List Tensor) (axis : Nat) :
    Keeps F (Tensor.concat parts axis : Run α Tensor) :=
  Keeps.get.bind fun _ => (Keeps.check _).bind fun _ => .record _ _

theorem Keeps.stack (parts : List Tensor) (axis : Nat) :
    Keeps F (Tensor.stack parts axis : Run α Tensor) := by
  refine (Keeps.mapM parts fun t => (Keeps.value t).bind fun x => ?_).bind fun raised =>
    .concat raised axis
  dsimp only
  split
  · exact .rearrange t _
  · exact .throw _

theorem Keeps.embedding (ids table : Tensor) : Keeps F (ids.embedding table : Run α Tensor) := by
  refine (Keeps.value table).bind fun t => ?_
  split
  · exact (Keeps.value ids).bind fun _ => (Keeps.check _).bind fun _ =>
      (Keeps.check _).bind fun _ => .record _ _
  · exact .throw _

theorem Keeps.convolve (x w : Tensor) (bias : Option Tensor) (stride padding : List Nat) :
    Keeps F (x.convolve w bias stride padding : Run α Tensor) := by
  refine (Keeps.value x).bind fun _ => (Keeps.value w).bind fun _ => ?_
  refine (Keeps.check _).bind fun c => ?_
  cases bias with
  | none => exact .record _ _
  | some b =>
    refine ((Keeps.value b).map some).bind fun shift => ?_
    dsimp only
    split
    · split
      · exact .raise _ _
      · exact .record _ _
    · exact .record _ _

theorem rel_dropout (a : Tensor) (probability : Single) (hw : w.training = true) :
    F.Rel w ((a.dropout probability : Run α Tensor) w).2 := by
  unfold Tensor.dropout
  dsimp only
  split
  · exact Keeps.raise _ _ w
  · split
    · exact Keeps.pure a w
    · rw [bind_of_ok (value_apply a w)]
      exact rel_bind (rel_draw _ hw) fun _ => (Keeps.check _).bind fun _ => .record _ _

omit [Scalar α] in
/-- What was read has one value for each channel. -/
theorem rel_perChannel {f : DenseArray α → Run α γ} {t : Tensor} {channels : Nat} {what : String}
    (h : (w.value t).extents = [channels] → F.Rel w (f (w.value t) w).2) :
    F.Rel w ((t.perChannel channels what >>= f) w).2 := by
  have hrun : t.perChannel channels what w =
      (if (w.value t).extents = [channels] then pure (w.value t) else
        throw (.shapeMismatch ("batch norm " ++ what) (.extents [channels])
          (.extents (w.value t).extents)) : Run α _) w := rfl
  rw [bind_apply, hrun]
  by_cases hextents : (w.value t).extents = [channels]
  · rw [if_pos hextents]
    exact h hextents
  · rw [if_neg hextents]
    exact F.refl w

/-- Normalizing moves the running statistics, and only in training. -/
theorem rel_normalize {x gamma beta mean variance : Tensor} {how : Tensor.Normalization}
    (hmean : F.Moves mean) (hvariance : F.Moves variance)
    (hw : how.training = true → w.training = true) :
    F.Rel w ((x.normalize gamma beta mean variance how : Run α Tensor) w).2 := by
  unfold Tensor.normalize
  rw [bind_of_ok (value_apply x w)]
  dsimp only
  split
  · exact F.refl w
  · refine rel_perChannel fun _ => rel_perChannel fun _ => ?_
    refine rel_perChannel fun hm => rel_perChannel fun hv => ?_
    cases htraining : how.training with
    | false => exact F.push w _
    | true =>
      let momentum : α := Scalar.ofSingle how.momentum
      let rows := (w.value x).toRows how.axis
      let batchMean := Normalized.batchMean rows
      let newMean := Normalized.blend momentum (w.value mean) batchMean
      let newVariance := Normalized.blend momentum (w.value variance)
        (Normalized.batchVariance rows batchMean)
      let w₁ := w.setValue mean newMean
      have hnewMean : newMean.extents = (w.value mean).extents := rfl
      have hnewVariance : newVariance.extents = (w.value variance).extents := rfl
      have hfirst : F.Rel w w₁ := hmean w newMean (hw htraining) hnewMean
      have hmode : w₁.training = true := (w.training_setValue mean newMean).trans (hw htraining)
      have hextents : newVariance.extents = (w₁.value variance).extents :=
        hnewVariance.trans (Workspace.extents_value_setValue variance hnewMean).symm
      have hsecond : F.Rel w₁ (w₁.setValue variance newVariance) := hvariance w₁ _ hmode hextents
      exact F.trans (F.trans hfirst hsecond) (F.push (w₁.setValue variance newVariance) _)

/-! ## Gradients -/

theorem Keeps.loss (l : Loss) (prediction label : Tensor) :
    Keeps F (l.apply prediction label : Run α Tensor) := by
  cases l with
  | l2 =>
    refine (Keeps.value _).bind fun out => (Keeps.value _).bind fun target => ?_
    dsimp only
    split
    · exact .raise _ _
    · exact .record _ _
  | softmaxCrossEntropy =>
    refine (Keeps.value _).bind fun logits => ?_
    dsimp only
    split
    · exact .throw _
    · exact (Keeps.value _).bind fun _ => (Keeps.check _).bind fun _ => .record _ _

theorem Keeps.passOn (h : ∀ t g, Keeps F (addGradient t g : Run α Unit)) (id : Nat) :
    Keeps F (passOn id : Run α Unit) := by
  refine Keeps.get.bind fun w => ?_
  dsimp only
  split
  · split
    · exact .forM _ fun _ => Keeps.get.bind fun _ => (Keeps.check _).bind fun _ => h _ _
    · exact .pure ()
  · exact .pure ()

/-- A frame that bears a gradient bears all of them. -/
theorem Keeps.backward (h : ∀ t g, Keeps F (addGradient t g : Run α Unit)) (root : Tensor) :
    Keeps F (backward root : Run α Unit) :=
  Keeps.get.bind fun _ => (h _ _).bind fun _ => .forM _ fun id => .passOn h id

end Run

end NeuralNet
