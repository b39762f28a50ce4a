import NeuralNet.Proofs.DenseArray.Columns
import NeuralNet.Proofs.Tape.Making

/-!
# Operations of one layer

What convolving, normalizing, dropping and looking up rows make, each of which only one kind of layer
does.
-/

namespace NeuralNet

variable {α : Type} [Scalar α]

namespace Run

variable {Γ : Context} {a b x : Tensor} {s s' r : Extents}

omit [Scalar α] in
theorem Ends.mapM_value {γ : Type} {f : Option (DenseArray α) → Run α γ}
    {K : Except Error γ → Workspace α → Prop} (ha : (a, s) ∈ Γ)
    (h : ∀ y : DenseArray α, y.extents = s → Ends Γ (f (some y)) K) :
    Ends Γ ((some a).mapM Run.value >>= f) K :=
  fun w hw => h (w.value a) (Workspace.extents_value (hw _ ha)) w hw

theorem Makes.convolve {w : Tensor} {bias : Option Tensor} {stride padding : List Nat}
    {c : Convolution} (hx : (x, s) ∈ Γ) (hw : (w, s') ∈ Γ) (hbias : ∀ b ∈ bias, (b, [c.filters]) ∈ Γ)
    (hfit : Convolution.fit s s' stride padding = .ok c) :
    Makes Γ (x.convolve w bias stride padding : Run α Tensor) (c.batch :: c.filters :: c.output) := by
  refine Ends.value hx fun input hinput => Ends.value hw fun weight hweight => ?_
  subst hinput hweight
  refine Ends.check hfit ?_
  cases bias with
  | none => exact Makes.record _ rfl
  | some b =>
    refine Ends.mapM_value (hbias b rfl) fun shift hshift => ?_
    dsimp only
    rw [if_neg (not_not.mpr hshift)]
    exact Makes.record _ rfl

theorem Stuck.convolve {w : Tensor} {bias : Option Tensor} {stride padding : List Nat} {e : Error}
    (hx : (x, s) ∈ Γ) (hw : (w, s') ∈ Γ) (hfit : Convolution.fit s s' stride padding = .error e) :
    Stuck Γ (x.convolve w bias stride padding : Run α Tensor) := by
  refine Ends.value hx fun input hinput => Ends.value hw fun weight hweight => ?_
  subst hinput hweight
  exact Stuck.check hfit

omit [Scalar α] in
theorem Ends.perChannel {γ : Type} {k : Nat} {what : String} {f : DenseArray α → Run α γ}
  {K : Except Error γ → Workspace α → Prop} (ha : (a, [k]) ∈ Γ)
    (h : ∀ y : DenseArray α, y.extents = [k] → Ends Γ (f y) K) :
    Ends Γ (a.perChannel k what >>= f) K := by
  intro w hw
  have hextents := Workspace.extents_value (hw _ ha)
  rw [bind_of_ok (perChannel_of_extents hextents)]
  exact h _ hextents w hw

omit [Scalar α] in
theorem Stuck.perChannel {γ : Type} {k m : Nat} {what : String} {f : DenseArray α → Run α γ}
    (ha : (a, [k]) ∈ Γ) (hm : m ≠ k) : Stuck Γ (a.perChannel m what >>= f) := by
  refine Stuck.bind (Ends.value ha fun y hy => ?_) f
  have hextents : ¬y.extents = [m] := fun h => hm (List.singleton_injective (h.symm.trans hy))
  rw [if_neg hextents]
  exact Stuck.throw _

theorem Makes.normalize {gamma beta : Tensor} {mean variance k : Nat}
    {how : Tensor.Normalization} (hx : (x, s) ∈ Γ)
    (hgamma : (gamma, [k]) ∈ Γ) (hbeta : (beta, [k]) ∈ Γ)
    (hmean : (.weight mean, [k]) ∈ Γ) (hvariance : (.weight variance, [k]) ∈ Γ)
    (haxis : s[how.axis]? = some k) :
    Makes Γ (x.normalize gamma beta (.weight mean) (.weight variance) how : Run α Tensor) s := by
  refine Ends.value hx fun input hinput => ?_
  subst hinput
  have hlt : how.axis < input.extents.length := (List.getElem?_eq_some_iff.mp haxis).1
  have hrank : ¬input.rank ≤ how.axis := Nat.not_le.mpr hlt
  have hk : input.extents.getD how.axis 0 = k := by
    rw [List.getD_eq_getElem?_getD, haxis, Option.getD_some]
  dsimp only
  rw [if_neg hrank, hk]
  refine Ends.perChannel hgamma fun scale _ => Ends.perChannel hbeta fun shift _ => ?_
  refine Ends.perChannel hmean fun storedMean hm => Ends.perChannel hvariance fun storedVar hv => ?_
  have hextents (rows : DenseArray α) : (rows.fromRows input.extents how.axis).extents =
      input.extents := DenseArray.extents_fromRows rows hlt
  cases how.training with
  | true => exact Ends.setValue hmean hm (Ends.setValue hvariance hv (Makes.record _ (hextents _)))
  | false => exact Makes.record _ (hextents _)

theorem Stuck.normalize {gamma beta mean variance : Tensor} {k : Nat} {how : Tensor.Normalization}
    (hx : (x, s) ∈ Γ) (hgamma : (gamma, [k]) ∈ Γ) (haxis : s[how.axis]? ≠ some k) :
    Stuck Γ (x.normalize gamma beta mean variance how : Run α Tensor) := by
  refine Ends.value hx fun input hinput => ?_
  subst hinput
  dsimp only
  by_cases hrank : input.rank ≤ how.axis
  · rw [if_pos hrank]
    exact (Stuck.throw _).bind _
  · rw [if_neg hrank]
    refine Stuck.perChannel hgamma fun hk => haxis ?_
    rw [← hk, List.getD_eq_getElem?_getD]
    rw [List.getElem?_eq_getElem (Nat.not_le.mp hrank), Option.getD_some]

end Run

theorem Draw.length_times {β : Type} (d : Draw β) (count : Nat) (source : RandomSource) :
    ((d.times count).run source).1.length = count := by
  induction count generalizing source with
  | zero => rfl
  | succ count ih => exact congrArg (· + 1) (ih (d.run source).2)

namespace Run

variable {Γ : Context} {a b x : Tensor} {s s' r : Extents}

/-- Nothing is dropped at 0; otherwise the mask has to be addressable. -/
theorem Makes.dropout {p : Single} (hx : (x, s) ∈ Γ) (hp : OptimizerSettings.isFraction p = true)
    (hs : p.eqv .zero = true ∨ s.addressable = true) : Makes Γ (x.dropout p : Run α Tensor) s := by
  unfold Tensor.dropout
  rw [hp]
  cases hzero : p.eqv .zero with
  | true => exact Gives.pure rfl (by simp [hx])
  | false =>
    have hs : s.addressable = true := by simpa [hzero] using hs
    refine Ends.value hx fun y hy => Ends.draw fun source => ?_
    subst hy
    refine Ends.check (DenseArray.ofList_ok hs ?_) (Makes.record _ rfl)
    rw [List.length_map, Draw.length_times, DenseArray.size, y.size_eq]

theorem Stuck.dropout {p : Single} (hx : (x, s) ∈ Γ) (hzero : p.eqv .zero = false)
    (hs : s.addressable = false) : Stuck Γ (x.dropout p : Run α Tensor) := by
  unfold Tensor.dropout
  rw [hzero]
  cases OptimizerSettings.isFraction p with
  | false => exact (Stuck.throw _).bind _
  | true =>
    refine Ends.value hx fun y hy => Ends.draw fun source => ?_
    subst hy
    exact Stuck.check (DenseArray.ofList_error hs)

end Run

/-! ### Rows of a table -/

/-- Whether all values are numbers of rows of a table. -/
def DenseArray.namesRows (x : DenseArray α) (rows : Nat) : Bool :=
  x.toList.all fun v => (Scalar.toNat? v).any (· < rows)

namespace Tensor

variable {x : DenseArray α} {rows width : Nat}

theorem rowId_isOk {id : α} :
    (∃ i, rowId rows id = .ok i) ↔ (Scalar.toNat? id).any (· < rows) = true := by
  unfold rowId
  cases Scalar.toNat? id with
  | none => simp
  | some i => by_cases hi : i < rows <;> simp [hi]

theorem namesRows_iff : x.namesRows rows = true ↔ ∃ ids, x.toList.mapM (rowId rows) = .ok ids := by
  simp only [mapM_eq_ok_iff, exists_forall₂, rowId_isOk]
  exact List.all_eq_true

end Tensor

namespace Run

variable {Γ : Context} {ids table : Tensor} {s : Extents} {rows width : Nat} {w : Workspace α}

/-- Whether rows can be picked depends on the numbers, so that the workspace is fixed here. -/
theorem embedding_apply (htable : (w.value table).extents = [rows, width]) :
    ids.embedding table w =
      (check ((w.value ids).toList.mapM (Tensor.rowId rows)) >>= fun chosen =>
        check (Rearrangement.rows chosen.toArray (w.value ids).extents width) >>= fun r =>
          record (.rearrange table [rows, width] r) ((w.value table).rearrange r)) w := by
  unfold Tensor.embedding
  rw [bind_of_ok (value_apply table w), htable]
  rfl

theorem embedding_ok (hw : w.Models Γ) (hids : (ids, s) ∈ Γ) (htable : (table, [rows, width]) ∈ Γ)
    (hrows : (w.value ids).namesRows rows = true)
    (haddressable : Extents.addressable (s ++ [width]) = true) :
    Given Γ (fun t Δ => Δ = [(t, s ++ [width])]) (ids.embedding table w).1
      (ids.embedding table w).2 := by
  obtain ⟨chosen, hchosen⟩ := Tensor.namesRows_iff.mp hrows
  have hs : (w.value ids).extents = s := Workspace.extents_value (hw _ hids)
  have hplan : ∃ r, Rearrangement.rows chosen.toArray s width = .ok r ∧ r.extents = s ++ [width] :=
    ⟨_, if_pos haddressable, rfl⟩
  obtain ⟨r, hr, hextents⟩ := hplan
  rw [embedding_apply (Workspace.extents_value (hw _ htable)), hs]
  exact Ends.check hchosen (Ends.check hr (Makes.record _ hextents)) w hw

theorem embedding_error (hw : w.Models Γ) (hids : (ids, s) ∈ Γ)
    (htable : (table, [rows, width]) ∈ Γ)
    (h : ¬((w.value ids).namesRows rows = true ∧ Extents.addressable (s ++ [width]) = true)) :
    ∃ e, (ids.embedding table w).1 = .error e := by
  have hs : (w.value ids).extents = s := Workspace.extents_value (hw _ hids)
  rw [embedding_apply (Workspace.extents_value (hw _ htable)), hs]
  cases hchosen : (w.value ids).toList.mapM (Tensor.rowId rows) with
  | error e => exact ⟨e, rfl⟩
  | ok chosen =>
    have hrows := Tensor.namesRows_iff.mpr ⟨chosen, hchosen⟩
    have hlarge : ¬Extents.addressable (s ++ [width]) = true := fun haddressable =>
      h ⟨hrows, haddressable⟩
    exact Ends.check rfl (Stuck.check (if_neg hlarge)) w hw

end Run

end NeuralNet
