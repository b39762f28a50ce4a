import NeuralNet.Proofs.Tape.Making

/-!
# Computing the values of arrays

Where layers do not draw and do not change parameters, a computation on handles is one on the arrays
behind them. An environment says which arrays these are, and every operation extends it by its
result.

* `Run.Computes`: a computation on handles and one on arrays, which fail alike or have the same
  result.
-/

namespace NeuralNet

variable {α β γ δ ε : Type}

/-- Handles, each with its array. -/
abbrev Environment (α : Type) := List (Tensor × DenseArray α)

namespace Workspace

variable {w : Workspace α} {Γ Δ : Environment α} {t : Tensor} {a : DenseArray α}

/-- Layers behave as in evaluation, and the environment holds. -/
def Holds (w : Workspace α) (Γ : Environment α) : Prop :=
  w.training = false ∧ ∀ p ∈ Γ, w.array? p.1 = some p.2

theorem Holds.value (h : w.Holds Γ) (ht : (t, a) ∈ Γ) : w.value t = a :=
  (array?_eq_some.mp (h.2 _ ht)).2

theorem Holds.subset (h : w.Holds Γ) (hsub : Δ ⊆ Γ) : w.Holds Δ :=
  ⟨h.1, fun p hp => h.2 p (hsub hp)⟩

theorem Holds.models (h : w.Holds Γ) : w.Models (Γ.map fun p => (p.1, p.2.extents)) := by
  refine List.forall_mem_map.mpr fun p hp => ?_
  rw [extents?_eq_map, h.2 p hp, Option.map_some]

/-- A new node is known by its number. -/
theorem Holds.push (h : w.Holds Γ) (n : Node α) :
    ({ w with nodes := w.nodes.push n } : Workspace α).Holds
      ((.node w.nodes.size, n.data) :: Γ) := by
  exact ⟨h.1, List.forall_mem_cons.mpr ⟨by simp [array?], fun p hp => array?_push w n (h.2 p hp)⟩⟩

end Workspace

namespace Run

/-- How a computation ends whose outcome is known: it fails alike, or its result is related to the
one that is known and to an environment for it. -/
def Follows (Γ : Environment α) (R : β → γ → Environment α → Prop) (y : Except Error γ)
    (r : Except Error β) (w : Workspace α) : Prop :=
  match y with
  | .error e => r = .error e
  | .ok c => ∃ b Δ, r = .ok b ∧ R b c Δ ∧ w.Holds (Δ ++ Γ)

/-- Wherever the environment holds, the computation ends as the one on arrays. -/
def Computes (Γ : Environment α) (R : β → γ → Environment α → Prop) (x : Run α β)
    (y : Except Error γ) : Prop := ∀ w, w.Holds Γ → Follows Γ R y (x w).1 (x w).2

/-- A handle and its array. -/
def One (t : Tensor) (a : DenseArray α) (Δ : Environment α) : Prop := Δ = [(t, a)]

/-- Handles and their arrays. -/
def Many (ts : List Tensor) (as : List (DenseArray α)) (Δ : Environment α) : Prop :=
  List.Forall₂ (fun t a => (t, a) ∈ Δ) ts as

variable {Γ Δ : Environment α} {R : β → γ → Environment α → Prop}
  {S : δ → ε → Environment α → Prop} {x : Run α β} {y : Except Error γ} {f : β → Run α δ}
  {g : γ → Except Error ε} {b : β} {c : γ} {t : Tensor} {a : DenseArray α} {w : Workspace α}

theorem Computes.bind (hx : Computes Γ R x y)
    (hf : ∀ b c Δ, y = .ok c → R b c Δ → Computes (Δ ++ Γ) S (f b) (g c)) :
    Computes Γ S (x >>= f) (y >>= g) := by
  intro w hw
  have hfirst := hx w hw
  cases y with
  | error e =>
    have hrun : x w = (.error e, (x w).2) := Prod.ext hfirst rfl
    exact congrArg Prod.fst (bind_of_error hrun)
  | ok c =>
    obtain ⟨b, Δ, hok, hR, hholds⟩ := hfirst
    have hrun : x w = (.ok b, (x w).2) := Prod.ext hok rfl
    rw [bind_of_ok hrun]
    have hrest := hf b c Δ rfl hR _ hholds
    change Follows Γ S (g c) _ _
    cases hc : g c with
    | error e =>
      rw [hc] at hrest
      exact hrest
    | ok d =>
      rw [hc] at hrest
      obtain ⟨b', Δ', hok', hS, hholds'⟩ := hrest
      -- what was known on the way is forgotten
      refine ⟨b', Δ', hok', hS, hholds'.subset fun p hp => ?_⟩
      exact (List.mem_append.mp hp).elim (List.mem_append_left _) fun hp =>
        List.mem_append_right _ (List.mem_append_right _ hp)

/-- The result is an array. -/
theorem Computes.one {x : Run α Tensor} {y : Except Error (DenseArray α)}
    {f : Tensor → Run α δ} {g : DenseArray α → Except Error ε} (hx : Computes Γ One x y)
    (hf : ∀ t a, Computes ((t, a) :: Γ) S (f t) (g a)) : Computes Γ S (x >>= f) (y >>= g) := by
  refine hx.bind fun t a Δ _ hΔ => ?_
  obtain rfl := hΔ
  exact hf t a

/-- The result is an array that is known. -/
theorem Computes.known {x : Run α Tensor} {f : Tensor → Run α δ} {z : Except Error ε}
    (hx : Computes Γ One x (.ok a)) (hf : ∀ t, Computes ((t, a) :: Γ) S (f t) z) :
    Computes Γ S (x >>= f) z := by
  have hbind : Computes Γ S (x >>= f) (Except.ok a >>= fun _ => z) := by
    refine hx.bind fun t c Δ hc hΔ => ?_
    cases hc
    obtain rfl := hΔ
    exact hf t
  exact hbind

theorem Many.subset {ts : List Tensor} {as : List (DenseArray α)} (h : Many ts as Δ)
    (hsub : Δ ⊆ Γ) : Many ts as Γ := h.imp fun _ _ hp => hsub hp

theorem Computes.pure (hR : R b c Γ) : Computes Γ R (Pure.pure b) (.ok c) :=
  fun _ hw => ⟨b, Γ, rfl, hR, hw.subset (List.append_subset.mpr ⟨.refl _, .refl _⟩)⟩

/-- At the end comes an array that is known. -/
theorem Computes.single (ht : (t, a) ∈ Γ) : Computes Γ Many (Pure.pure [t]) (.ok [a]) :=
  .pure (.cons ht .nil)

theorem Computes.throw (e : Error) :
    Computes Γ R (throw e : Run α β) (.error e : Except Error γ) := fun _ _ => rfl

theorem Computes.fail (e : Error) (f : δ → Run α β) :
    Computes Γ R (MonadExcept.throw e >>= f) (.error e : Except Error γ) := fun _ _ => rfl

theorem Computes.get {f : Workspace α → Run α δ} {z : Except Error ε}
    (h : ∀ w : Workspace α, w.Holds Γ → Computes Γ S (f w) z) :
    Computes Γ S ((get : Run α (Workspace α)) >>= f) z := fun w hw => h w hw w hw

theorem Computes.value {f : DenseArray α → Run α δ} {z : Except Error ε} (ht : (t, a) ∈ Γ)
    (h : Computes Γ S (f a) z) : Computes Γ S (value t >>= f) z := by
  refine fun w hw => ?_
  have hvalue : (Run.value t : Run α _) w = (.ok a, w) :=
    congrArg (fun b => ((.ok b : Except Error _), w)) (hw.value ht)
  rw [bind_of_ok hvalue]
  exact h w hw

theorem Computes.check {y : Except Error β} {f : β → Run α δ} {g : β → Except Error ε}
    (h : ∀ b, y = .ok b → Computes Γ S (f b) (g b)) :
    Computes Γ S (check y >>= f) (y >>= g) := by
  cases y with
  | error e => exact fun _ _ => rfl
  | ok b => exact h b rfl

theorem Computes.record (op : Operation α) (a : DenseArray α) :
    Computes Γ One (record op a) (.ok a) := fun _ hw => ⟨_, _, rfl, rfl, hw.push _⟩

theorem Computes.leaf (a : DenseArray α) (grad : Bool) :
    Computes Γ One (leaf a grad) (.ok a) := fun _ hw => ⟨_, _, rfl, rfl, hw.push _⟩

/-- An operation that may fail, and what is recorded of it. -/
theorem Computes.checked (op : DenseArray α → Operation α) (y : Except Error (DenseArray α)) :
    Computes Γ One (Run.check y >>= fun z => Run.record (op z) z) y := by
  cases y with
  | error e => exact fun _ _ => rfl
  | ok z => exact .record (op z) z

theorem Computes.weight {i : Nat} {f : Tensor → Run α δ} {z : Except Error ε}
    (hi : (.weight i, a) ∈ Γ) (h : Computes Γ S (f (.weight i)) z) :
    Computes Γ S (weight i >>= f) z := by
  intro w hw
  have hextents : w.extents? (.weight i) = some a.extents := by
    rw [Workspace.extents?_eq_map, hw.2 _ hi, Option.map_some]
  rw [bind_of_ok (weight_apply hextents)]
  exact h w hw

theorem Computes.mapM {ts : List Tensor} {as : List (DenseArray α)} {f : Tensor → Run α Tensor}
    {g : DenseArray α → Except Error (DenseArray α)} (hmany : Many ts as Γ)
    (h : ∀ Γ' t a, (t, a) ∈ Γ' → Computes Γ' One (f t) (g a)) :
    Computes Γ Many (ts.mapM f) (as.mapM g) := by
  unfold Many at hmany
  induction ts generalizing as Γ with
  | nil =>
    cases hmany
    exact .pure .nil
  | cons t ts ih =>
    obtain ⟨a, as, ht, hts, rfl⟩ := List.forall₂_cons_left_iff.mp hmany
    rw [List.mapM_cons, List.mapM_cons]
    refine (h Γ t a ht).one fun t' a' => ?_
    refine Computes.bind (ih (hts.imp fun _ _ hp => .tail _ hp)) ?_
    intro ts' as' Δ _ hΔ
    refine .pure (.cons ?_ (hΔ.subset (List.subset_append_left _ _)))
    exact List.mem_append_right _ List.mem_cons_self

end Run

/-! ## Operations -/

namespace DenseArray

variable [Scalar α]

def add (a b : DenseArray α) : Except Error (DenseArray α) := a.broadcast "add" (· + ·) b

def sub (a b : DenseArray α) : Except Error (DenseArray α) := a.broadcast "sub" (· - ·) b

def mul (a b : DenseArray α) : Except Error (DenseArray α) := a.broadcast "mul" (· * ·) b

/-- The array as rearranged by a plan made from its extents. -/
def arrange (a : DenseArray α) (plan : Extents → Except Error Rearrangement) :
    Except Error (DenseArray α) := do return a.rearrange (← plan a.extents)

def reshape (a : DenseArray α) (s : Extents) : Except Error (DenseArray α) :=
  a.arrange fun source => Rearrangement.regroup source s

def select (a : DenseArray α) (axis index : Nat) : Except Error (DenseArray α) :=
  a.arrange fun source => Rearrangement.select source axis index

def slice (a : DenseArray α) (start stop : Nat) : Except Error (DenseArray α) :=
  a.arrange fun source => Rearrangement.slice source start stop

/-- With a new axis of extent 1. -/
def raise (axis : Nat) (a : DenseArray α) : Except Error (DenseArray α) :=
  if axis ≤ a.extents.length then a.reshape (a.extents.insertIdx axis 1)
  else .error (.invalidArgument (.axis "stack" axis a.extents.length))

def stack (parts : List (DenseArray α)) (axis : Nat) : Except Error (DenseArray α) := do
  concat axis (← parts.mapM (raise axis))

/-- The rows of a table that an array of numbers names. -/
def lookUp (ids table : DenseArray α) : Except Error (DenseArray α) :=
  match table.extents with
  | [rows, width] => do
    let chosen ← ids.toList.mapM (Tensor.rowId rows)
    return table.rearrange (← Rearrangement.rows chosen.toArray ids.extents width)
  | s => .error (.shapeMismatch "embedding weight" (.words "[V, D]") (.extents s))

def convolve (x w : DenseArray α) (bias : Option (DenseArray α)) (stride padding : List Nat) :
    Except Error (DenseArray α) := do
  let c ← Convolution.fit x.extents w.extents stride padding
  if let some b := bias then
    if b.extents ≠ [c.filters] then
      throw (.shapeMismatch "conv bias" (.extents [c.filters]) (.extents b.extents))
  return c.apply x w bias

/-- An array with one value for each channel. -/
def perChannel (a : DenseArray α) (channels : Nat) (what : String) :
    Except Error (DenseArray α) :=
  if a.extents = [channels] then .ok a
  else .error (.shapeMismatch ("batch norm " ++ what) (.extents [channels]) (.extents a.extents))

/-- Normalizes every channel by given statistics. -/
def normalize (x gamma beta mean variance : DenseArray α) (axis : Nat) (epsilon : Single) :
    Except Error (DenseArray α) := do
  if x.rank ≤ axis then throw (.invalidArgument (.normAxis axis x.rank))
  let channels := x.extents.getD axis 0
  let scale ← gamma.perChannel channels "gamma"
  let shift ← beta.perChannel channels "beta"
  let mean ← mean.perChannel channels "running mean"
  let variance ← variance.perChannel channels "running variance"
  return (Normalized.of x mean variance scale axis (Scalar.ofSingle epsilon) false).output shift

end DenseArray

namespace Run

open DenseArray

variable [Scalar α] {Γ : Environment α} {s t : Tensor} {a b : DenseArray α}

theorem Computes.add (hs : (s, a) ∈ Γ) (ht : (t, b) ∈ Γ) :
    Computes Γ One (s.add t : Run α Tensor) (a.add b) := .value hs (.value ht (.checked _ _))

theorem Computes.sub (hs : (s, a) ∈ Γ) (ht : (t, b) ∈ Γ) :
    Computes Γ One (s.sub t : Run α Tensor) (a.sub b) := .value hs (.value ht (.checked _ _))

theorem Computes.mul (hs : (s, a) ∈ Γ) (ht : (t, b) ∈ Γ) :
    Computes Γ One (s.mul t : Run α Tensor) (a.mul b) := .value hs (.value ht (.checked _ _))

theorem Computes.matmul (hs : (s, a) ∈ Γ) (ht : (t, b) ∈ Γ) :
    Computes Γ One (s.matmul t : Run α Tensor) (a.matmul b) := .value hs (.value ht (.checked _ _))

theorem Computes.relu (ht : (t, a) ∈ Γ) :
    Computes Γ One (t.relu : Run α Tensor) (.ok (a.map Scalar.relu)) := .value ht (.record _ _)

theorem Computes.sigmoid (ht : (t, a) ∈ Γ) :
    Computes Γ One (t.sigmoid : Run α Tensor) (.ok (a.map Scalar.sigmoid)) :=
  .value ht (.record _ _)

theorem Computes.tanh (ht : (t, a) ∈ Γ) :
    Computes Γ One (t.tanh : Run α Tensor) (.ok (a.map Scalar.tanh)) := .value ht (.record _ _)

theorem Computes.rearrange (ht : (t, a) ∈ Γ) (plan : Extents → Except Error Rearrangement) :
    Computes Γ One (t.rearrange plan : Run α Tensor) (a.arrange plan) :=
  .value ht (.check fun _ _ => .record _ _)

theorem Computes.raise (axis : Nat) (ht : (t, a) ∈ Γ) :
    Computes Γ One (Run.raise axis t : Run α Tensor) (a.raise axis) := by
  refine Computes.value ht ?_
  unfold DenseArray.raise
  dsimp only
  split
  · exact .rearrange ht _
  · exact .throw _

theorem Computes.concat {ts : List Tensor} {as : List (DenseArray α)} (hmany : Many ts as Γ)
    (axis : Nat) :
    Computes Γ One (Tensor.concat ts axis : Run α Tensor) (DenseArray.concat axis as) := by
  refine Computes.get fun w hw => ?_
  have harrays : ts.map w.value = as := by
    have hmap := map_eq_map_of_forall₂ (f := w.value) (g := id) hmany
      fun t a ht => (hw.value ht).symm
    rw [List.map_id] at hmap
    exact hmap.symm
  dsimp only
  rw [harrays]
  exact .checked _ _

theorem Computes.stack {ts : List Tensor} {as : List (DenseArray α)} (hmany : Many ts as Γ)
    (axis : Nat) :
    Computes Γ One (Tensor.stack ts axis : Run α Tensor) (DenseArray.stack as axis) := by
  rw [stack_eq]
  refine Computes.bind (.mapM hmany fun Γ' t a ht => .raise axis ht) fun ts' as' Δ _ hΔ => ?_
  exact .concat (hΔ.subset (List.subset_append_left _ _)) axis

theorem Computes.embedding (hs : (s, a) ∈ Γ) (ht : (t, b) ∈ Γ) :
    Computes Γ One (s.embedding t : Run α Tensor) (a.lookUp b) := by
  refine Computes.value ht ?_
  unfold DenseArray.lookUp
  match b.extents with
  | [rows, width] => exact .value hs (.check fun _ _ => .check fun _ _ => .record _ _)
  | [] | [_] | _ :: _ :: _ :: _ => exact .throw _

theorem Computes.convolve {u : Option Tensor} {shift : Option (DenseArray α)}
    (hs : (s, a) ∈ Γ) (ht : (t, b) ∈ Γ) (hu : Option.Rel (fun u c => (u, c) ∈ Γ) u shift)
    (stride padding : List Nat) :
    Computes Γ One (s.convolve t u stride padding : Run α Tensor)
      (a.convolve b shift stride padding) := by
  refine Computes.value hs (.value ht (.check fun c _ => ?_))
  cases hu with
  | none => exact .record _ _
  | @some u d hu =>
    refine fun w hw => ?_
    have hvalue : ((some u).mapM Run.value : Run α _) w = (.ok (some d), w) :=
      congrArg (fun b => ((.ok (some b) : Except Error _), w)) (hw.value hu)
    rw [bind_of_ok hvalue]
    dsimp only
    split
    · exact Computes.fail _ _ w hw
    · exact Computes.record _ _ w hw

omit [Scalar α] in
theorem Computes.perChannel {S : β → γ → Environment α → Prop} {channels : Nat} {what : String}
    {f : DenseArray α → Run α β} {g : DenseArray α → Except Error γ} (ht : (t, a) ∈ Γ)
    (h : Computes Γ S (f a) (g a)) :
    Computes Γ S (t.perChannel channels what >>= f) (a.perChannel channels what >>= g) := by
  intro w hw
  have hvalue : (Run.value t : Run α _) w = (.ok a, w) :=
    congrArg (fun b => ((.ok b : Except Error _), w)) (hw.value ht)
  unfold Tensor.perChannel DenseArray.perChannel
  rw [bind_assoc, bind_of_ok hvalue]
  split
  · exact h w hw
  · rfl

theorem Computes.normalize {gamma beta mean variance : Tensor} {c d m v : DenseArray α}
    {axis : Nat} {epsilon momentum : Single} (ht : (t, a) ∈ Γ) (hgamma : (gamma, c) ∈ Γ)
    (hbeta : (beta, d) ∈ Γ) (hmean : (mean, m) ∈ Γ) (hvariance : (variance, v) ∈ Γ) :
    Computes Γ One
      (t.normalize gamma beta mean variance ⟨axis, epsilon, momentum, false⟩ : Run α Tensor)
      (a.normalize c d m v axis epsilon) := by
  refine Computes.value ht ?_
  unfold DenseArray.normalize
  dsimp only
  split
  · exact .fail _ _
  · exact .perChannel hgamma (.perChannel hbeta (.perChannel hmean (.perChannel hvariance
      (.record _ _))))

end Run

end NeuralNet
