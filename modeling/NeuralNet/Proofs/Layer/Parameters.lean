import NeuralNet.Block.Basic
import NeuralNet.Proofs.Layer.Width

/-!
# The extents of the parameters

A layer that is asked for the extents of a parameter is asked by name. All answers go by the width of
the input, so that they can be told for all parameters together: `forall₂_parameterShape`. The
parameters of a recurrent layer are named by the height of their cell, which is read back from the
name. So the plan of a block that is a layer is told from the width: `plan_leaf`, `width_of_plan`;
that of a sequence is told from its blocks: `plan_cons`.
-/

namespace NeuralNet

/-! ## Names with a height -/

namespace Layer

theorem cellField?_of_toList {name : String} {height : Nat} {field : List Char}
    (h : name.toList = 'l' :: (Nat.toDigits 10 height ++ '_' :: field)) :
    cellField? name = some (height, String.ofList field) := by
  have hdigit : ∀ c ∈ Nat.toDigits 10 height, c.isDigit = true := fun c hc =>
    Nat.isDigit_of_mem_toDigits (by decide) (by decide) hc
  have hother : ∀ c ∈ Nat.toDigits 10 height, decide (c ≠ '_') = true := by
    intro c hc
    refine decide_eq_true fun heq => ?_
    exact Nat.underscore_not_in_toDigits (heq ▸ hc)
  have htake : (Nat.toDigits 10 height ++ '_' :: field).takeWhile (· ≠ '_') =
      Nat.toDigits 10 height := by
    rw [List.takeWhile_append_of_pos hother, List.takeWhile_cons_of_neg (by decide),
      List.append_nil]
  have hdrop : (Nat.toDigits 10 height ++ '_' :: field).dropWhile (· ≠ '_') = '_' :: field := by
    rw [List.dropWhile_append_of_pos hother, List.dropWhile_cons_of_neg (by decide)]
  have hplus : (Nat.toDigits 10 height).head? ≠ some '+' := by
    intro hhead
    have hplus := hdigit '+' (List.mem_of_head? hhead)
    cases hplus
  have hvalue : (Nat.toDigits 10 height).foldl (fun n c => 10 * n + (c.toNat - 48)) 0 = height :=
    Nat.ofDigitChars_toDigits (by decide) (by decide)
  have hnonempty : (Nat.toDigits 10 height).isEmpty = false :=
    List.isEmpty_eq_false_iff.mpr Nat.toDigits_ne_nil
  unfold cellField?
  simp only [h, hdrop, htake, if_neg hplus, hnonempty, List.all_eq_true.mpr hdigit, hvalue,
    Bool.not_false, Bool.and_self, if_true]

theorem cellField?_name (height : Nat) (field : String) :
    cellField? ("l" ++ toString height ++ ("_" ++ field)) = some (height, field) := by
  have h : ("l" ++ toString height ++ ("_" ++ field)).toList =
      'l' :: (Nat.toDigits 10 height ++ '_' :: field.toList) := by
    simp [String.toList_append, Nat.toList_repr]
  rw [cellField?_of_toList h, String.ofList_toList]

/-! ## The extents of all parameters -/

end Layer

/-- The extents of the parameters of the cell at one height, over sequences of this width. -/
def RecurrentLayer.cellExtents (r : RecurrentLayer) (width height : Nat) : List Extents :=
  let rows := r.cell.gates * r.stateSize
  [[rows, if height = 0 then width else r.stateSize], [rows], [rows, r.stateSize], [rows]]

namespace Layer

variable {l : Layer} {r : RecurrentLayer} {inputs : List Shape} {k : Nat}

/-- The extents of the parameters in their order, for an input of this width. -/
def parameterExtents : Layer → Nat → List Extents
  | linear units bias, k => [units, k] :: if bias then [[units]] else []
  | conv c, k => (c.filters :: k :: c.kernel) :: if c.bias then [[c.filters]] else []
  | batchNorm _ _ _, k => [[k], [k], [k], [k]]
  | embedding rows width, _ | wordEmbedding rows width, _ => [[rows, width]]
  | recurrent r, k => (List.range r.depth).flatMap (r.cellExtents k)
  | dropout _, _ | flatten, _ | activation _, _ => []

/-- A name is read back into the height of its cell and the field. -/
theorem recurrentShape_name (inputs : List Shape) {height : Nat} (hheight : height < r.depth)
    (field : String) :
    let name := "l" ++ toString height ++ ("_" ++ field)
    let rows := r.cell.gates * r.stateSize
    recurrentShape r name inputs =
      (if height = 0 then (recurrent r).inputWidth inputs else pure r.stateSize) >>= fun k =>
        match field with
        | "i2h_weight" => .ok [rows, k]
        | "h2h_weight" => .ok [rows, r.stateSize]
        | "i2h_bias" | "h2h_bias" => .ok [rows]
        | _ => .error (.invalidArgument (.unknownParameter r.cell.name name)) := by
  intro name rows
  unfold recurrentShape
  rw [cellField?_name height field]
  dsimp only
  rw [if_neg (Nat.not_le.mpr hheight)]
  by_cases hzero : height = 0
  · rw [if_pos hzero, if_pos hzero]
    rfl
  · rw [if_neg hzero, if_neg hzero]
    rfl

theorem recurrentShape_cell (h : (recurrent r).inputWidth inputs = .ok k) {height : Nat}
    (hheight : height < r.depth) :
    List.Forall₂ (fun p s => recurrentShape r p.1 inputs = .ok s) (cellParameters height)
      (r.cellExtents k height) := by
  have hwidth : (if height = 0 then (recurrent r).inputWidth inputs else pure r.stateSize) =
      .ok (if height = 0 then k else r.stateSize) := by
    by_cases hzero : height = 0
    · rw [if_pos hzero, if_pos hzero, h]
    · rw [if_neg hzero, if_neg hzero]
      rfl
  have hfield := fun field => recurrentShape_name inputs hheight field
  simp only [hwidth] at hfield
  exact .cons (hfield "i2h_weight") (.cons (hfield "i2h_bias")
    (.cons (hfield "h2h_weight") (.cons (hfield "h2h_bias") .nil)))

theorem parameterShape_linear (units : Nat) (bias : Bool) :
    (linear units bias).parameterShape "weight" inputs =
      (fun k => [units, k]) <$> (linear units bias).inputWidth inputs := by
  change (do return [units, (← linearFeatures inputs).2]) = _ <$> (·.2) <$> linearFeatures inputs
  cases linearFeatures inputs <;> rfl

theorem parameterShape_conv (c : ConvLayer) :
    (conv c).parameterShape "weight" inputs =
      (fun k => c.filters :: k :: c.kernel) <$> (conv c).inputWidth inputs := by
  change (do
    let s ← convInput c inputs
    return c.filters :: (← s.requireDim 1 c.name) :: c.kernel) =
      _ <$> (convInput c inputs >>= fun s => s.requireDim 1 c.name)
  cases convInput c inputs with
  | error e => rfl
  | ok s =>
    change (do return c.filters :: (← s.requireDim 1 c.name) :: c.kernel) =
      _ <$> s.requireDim 1 c.name
    cases s.requireDim 1 c.name <;> rfl

theorem parameterShape_batchNorm {axis : Nat} {epsilon momentum : Single} {name : String}
    (h : name ∈ ["gamma", "beta", "running_mean", "running_var"]) :
    (batchNorm axis epsilon momentum).parameterShape name inputs =
      (fun k => [k]) <$> (batchNorm axis epsilon momentum).inputWidth inputs := by
  have heach : (batchNorm axis epsilon momentum).parameterShape name inputs =
      do return [(← normChannels axis inputs).2] := by
    simp only [List.mem_cons, List.not_mem_nil, or_false] at h
    rcases h with rfl | rfl | rfl | rfl <;> rfl
  rw [heach]
  change _ = _ <$> (·.2) <$> normChannels axis inputs
  cases normChannels axis inputs <;> rfl

theorem forall₂_flatMap {α β γ : Type} {R : α → β → Prop} {f : γ → List α} {g : γ → List β}
    {cs : List γ} (h : ∀ c ∈ cs, List.Forall₂ R (f c) (g c)) :
    List.Forall₂ R (cs.flatMap f) (cs.flatMap g) := by
  induction cs with
  | nil => exact .nil
  | cons c cs ih =>
    obtain ⟨hc, h⟩ := List.forall_mem_cons.mp h
    exact List.rel_append hc (ih h)

theorem forall₂_weightAndBias {R : String × ParameterKind → Extents → Prop} {weight bias : Extents}
    (hweight : R ("weight", .weight) weight) (hbias : R ("bias", .bias) bias) (b : Bool) :
    List.Forall₂ R (weightAndBias b) (weight :: if b then [bias] else []) := by
  cases b with
  | false => exact .cons hweight .nil
  | true => exact .cons hweight (.cons hbias .nil)

/-- Asked by name, a layer answers the extents that go by the width. -/
theorem forall₂_parameterShape (h : l.inputWidth inputs = .ok k) :
    List.Forall₂ (fun p s => l.parameterShape p.1 inputs = .ok s) l.declared
      (l.parameterExtents k) := by
  cases l with
  | linear units bias =>
    refine forall₂_weightAndBias ?_ rfl bias
    rw [parameterShape_linear, h]
    rfl
  | conv c =>
    refine forall₂_weightAndBias ?_ rfl c.bias
    rw [parameterShape_conv, h]
    rfl
  | batchNorm axis epsilon momentum =>
    have heach : ∀ name ∈ ["gamma", "beta", "running_mean", "running_var"],
        (batchNorm axis epsilon momentum).parameterShape name inputs = .ok [k] := by
      intro name hname
      rw [parameterShape_batchNorm hname, h]
      rfl
    exact .cons (heach "gamma" (by decide)) (.cons (heach "beta" (by decide))
      (.cons (heach "running_mean" (by decide)) (.cons (heach "running_var" (by decide)) .nil)))
  | recurrent r =>
    exact forall₂_flatMap fun height hheight => recurrentShape_cell h (List.mem_range.mp hheight)
  | embedding rows width | wordEmbedding rows width => exact .cons rfl .nil
  | dropout rate | flatten | activation a => exact .nil

/-- If all parameters have extents the input has a width. -/
theorem inputWidth_of_parameterShape
    (h : ∀ p ∈ l.declared, ∃ s, l.parameterShape p.1 inputs = .ok s) :
    ∃ k, l.inputWidth inputs = .ok k := by
  cases l with
  | linear units bias =>
    obtain ⟨s, hs⟩ := h ("weight", .weight) List.mem_cons_self
    rw [parameterShape_linear] at hs
    obtain ⟨k, hk, -⟩ := map_eq_ok_iff.mp hs
    exact ⟨k, hk⟩
  | conv c =>
    obtain ⟨s, hs⟩ := h ("weight", .weight) List.mem_cons_self
    rw [parameterShape_conv] at hs
    obtain ⟨k, hk, -⟩ := map_eq_ok_iff.mp hs
    exact ⟨k, hk⟩
  | batchNorm axis epsilon momentum =>
    obtain ⟨s, hs⟩ := h ("gamma", .gamma) List.mem_cons_self
    rw [parameterShape_batchNorm (by decide)] at hs
    obtain ⟨k, hk, -⟩ := map_eq_ok_iff.mp hs
    exact ⟨k, hk⟩
  | recurrent r =>
    have hdepth := Nat.pos_of_ne_zero r.depth_pos
    obtain ⟨s, hs⟩ := h ("l" ++ toString 0 ++ ("_" ++ "i2h_weight"), .weight)
      (List.mem_flatMap.mpr ⟨0, List.mem_range.mpr hdepth, List.mem_cons_self⟩)
    have hname := (recurrentShape_name inputs hdepth "i2h_weight").symm.trans hs
    obtain ⟨k, hk, -⟩ := bind_eq_ok_iff.mp hname
    exact ⟨k, hk⟩
  | embedding | wordEmbedding | dropout | flatten | activation => exact ⟨0, rfl⟩

end Layer

/-! ## The plan of a block -/

namespace Block

variable {l : Layer} {slots : List Nat} {inputs : List Shape} {k : Nat}

theorem forall₂_zip_swap {α β γ : Type} {R : α → β → Prop} {as : List α} {bs : List β}
    (h : List.Forall₂ R as bs) (cs : List γ) :
    List.Forall₂ (fun p q => p.2 = q.1 ∧ R p.1 q.2) (as.zip cs) (cs.zip bs) := by
  induction h generalizing cs with
  | nil =>
    rw [List.zip_nil_right]
    exact .nil
  | cons hab _ ih =>
    cases cs with
    | nil => exact .nil
    | cons c cs => exact .cons ⟨rfl, hab⟩ (ih cs)

theorem plan_leaf (slots : List Nat) (h : l.inputWidth inputs = .ok k) :
    (leaf l slots).plan inputs = .ok (slots.zip (l.parameterExtents k)) := by
  have hnames : List.Forall₂ (fun name s => l.parameterShape name inputs = .ok s)
      (l.declared.map (·.1)) (l.parameterExtents k) :=
    List.forall₂_map_left_iff.mpr (Layer.forall₂_parameterShape h)
  refine mapM_eq_ok_iff.mpr ((forall₂_zip_swap hnames slots).imp ?_)
  rintro ⟨name, i⟩ ⟨_, s⟩ ⟨rfl, hs⟩
  exact bind_eq_ok_iff.mpr ⟨s, hs, rfl⟩

/-- A layer that has all its parameters plans them only for an input with a width. -/
theorem width_of_plan {plan : List (Nat × Extents)} (hlen : slots.length = l.declared.length)
    (h : (leaf l slots).plan inputs = .ok plan) :
    ∃ k, l.inputWidth inputs = .ok k ∧ plan = slots.zip (l.parameterExtents k) := by
  have hall := mapM_eq_ok_iff.mp h
  have hwidth : ∃ k, l.inputWidth inputs = .ok k := by
    refine Layer.inputWidth_of_parameterShape fun p hp => ?_
    obtain ⟨i, hi, rfl⟩ := List.mem_iff_getElem.mp hp
    have hmem : (l.declared[i].1, slots[i]) ∈ (l.declared.map (·.1)).zip slots := by
      refine List.mem_iff_getElem.mpr ⟨i, by simp [hlen, hi], ?_⟩
      simp
    obtain ⟨_, -, hentry⟩ := exists_of_mem_left hall hmem
    obtain ⟨s, hs, -⟩ := bind_eq_ok_iff.mp hentry
    exact ⟨s, hs⟩
  obtain ⟨k, hk⟩ := hwidth
  exact ⟨k, hk, Except.ok.inj (h.symm.trans (plan_leaf slots hk))⟩

/-- The first block of a sequence plans for the inputs and the others for what it makes of them. -/
theorem plan_cons {b : Block} {bs : List Block} {plan : List (Nat × Extents)} :
    (sequential (b :: bs)).plan inputs = .ok plan ↔
      ∃ middle first rest, b.outputShapes inputs = .ok middle ∧ b.plan inputs = .ok first ∧
        (sequential bs).plan middle = .ok rest ∧ plan = first ++ rest := by
  constructor
  · intro h
    obtain ⟨all, hall, h⟩ := bind_eq_ok_iff.mp h
    obtain ⟨middle, hmiddle, hall⟩ := bind_eq_ok_iff.mp hall
    obtain ⟨others, hothers, hall⟩ := bind_eq_ok_iff.mp hall
    cases hall
    obtain ⟨first, hfirst, h⟩ := bind_eq_ok_iff.mp h
    obtain ⟨rest, hrest, h⟩ := bind_eq_ok_iff.mp h
    cases h
    exact ⟨middle, first, rest, hmiddle, hfirst, bind_eq_ok_iff.mpr ⟨others, hothers, hrest⟩, rfl⟩
  · rintro ⟨middle, first, rest, hmiddle, hfirst, h, rfl⟩
    obtain ⟨others, hothers, hrest⟩ := bind_eq_ok_iff.mp h
    refine bind_eq_ok_iff.mpr ⟨inputs :: others, ?_, ?_⟩
    · exact bind_eq_ok_iff.mpr ⟨middle, hmiddle, bind_eq_ok_iff.mpr ⟨others, hothers, rfl⟩⟩
    · exact bind_eq_ok_iff.mpr ⟨first, hfirst, bind_eq_ok_iff.mpr ⟨rest, hrest, rfl⟩⟩

end Block

end NeuralNet
