import Mathlib.Algebra.BigOperators.Group.List.Basic
import NeuralNet.Proofs.DenseArray.Product
import NeuralNet.Proofs.Tape.Context

/-!
# What the operations make

For every operation that layers use: from which extents it makes an array, of which extents, and from
which it cannot.
-/

namespace NeuralNet

/-! ## Extents -/

namespace Extents

variable {s : Extents} {n : Nat}

/-- Axes without extent count as 1. -/
theorem addressable_iff :
    s.addressable = true ↔ (s.map (max · 1)).prod < 0x8000000000000000 := by
  have hsize : size (s.filter (· ≠ 0)) = (s.map (max · 1)).prod := by
    induction s with
    | nil => rfl
    | cons n s ih =>
      by_cases hn : n = 0
      · rw [List.filter_cons_of_neg (by simpa using hn), ih]
        simp [hn]
      · have hmax : max n 1 = n := Nat.max_eq_left (Nat.pos_of_ne_zero hn)
        rw [List.filter_cons_of_pos (by simpa using hn), size, ih]
        simp [hmax]
  rw [addressable, decide_eq_true_iff, hsize]

theorem size_eq_prod (s : Extents) : s.size = s.prod := by
  induction s with
  | nil => rfl
  | cons n s ih => rw [size, ih, List.prod_cons]

variable {axis : Nat}

theorem size_insertIdx (n : Nat) (h : axis ≤ s.length) :
    size (s.insertIdx axis n) = n * s.size := by
  rw [size_eq_prod, (List.perm_insertIdx n s h).prod_eq, List.prod_cons, size_eq_prod]

theorem addressable_insertIdx (n : Nat) (h : axis ≤ s.length) :
    addressable (s.insertIdx axis n) = addressable (n :: s) := by
  have hperm := ((List.perm_insertIdx n s h).map (max · 1)).prod_eq
  rw [Bool.eq_iff_iff, addressable_iff, addressable_iff, hperm]

theorem addressable_one_cons : addressable (1 :: s) = addressable s := by
  rw [Bool.eq_iff_iff, addressable_iff, addressable_iff]
  simp

theorem addressable_of_cons (h : addressable (n :: s) = true) : addressable s = true := by
  rw [addressable_iff] at h ⊢
  rw [List.map_cons, List.prod_cons] at h
  have hpos : 0 < max n 1 := by omega
  exact Nat.lt_of_le_of_lt (Nat.le_mul_of_pos_left _ hpos) h

theorem set_insertIdx (n m : Nat) (h : axis ≤ s.length) :
    (s.insertIdx axis n).set axis m = s.insertIdx axis m := by
  induction s generalizing axis with
  | nil =>
    cases Nat.le_zero.mp h
    rfl
  | cons x s ih =>
    cases axis with
    | zero => rfl
    | succ axis =>
      rw [List.insertIdx_succ_cons, List.set_cons_succ, ih (Nat.le_of_succ_le_succ h),
        List.insertIdx_succ_cons]

theorem broadcastAxis?_self (n : Nat) : broadcastAxis? n n = some n := if_pos rfl

theorem broadcastAxis?_one (n : Nat) : broadcastAxis? n 1 = some n := by
  unfold broadcastAxis?
  by_cases hn : n = 1
  · rw [if_pos hn]
  · rw [if_neg hn, if_neg hn, if_pos rfl]

theorem broadcast?_self (s : Extents) : s.broadcast? s = some s := by
  have hpad : padTo (max s.length s.length) s = s := by simp [padTo]
  have hzip : s.zip s = s.map fun n => (n, n) := by
    simpa using (List.map_prod_left_eq_zip (l := s) (f := id)).symm
  unfold broadcast?
  simp only [hpad, hzip]
  refine mapM_eq_some_iff.mpr (List.forall₂_map_left_iff.mpr (List.forall₂_same.mpr ?_))
  exact fun n _ => broadcastAxis?_self n

/-- A vector is added to every row. -/
theorem broadcast?_last (s : Extents) (n : Nat) : broadcast? (s ++ [n]) [n] = some (s ++ [n]) := by
  have hleft : padTo (max (s ++ [n]).length [n].length) (s ++ [n]) = s ++ [n] := by simp [padTo]
  have hright : padTo (max (s ++ [n]).length [n].length) [n] = s.map (fun _ => 1) ++ [n] := by
    simp [padTo]
  have hzip : (s ++ [n]).zip (s.map (fun _ => 1) ++ [n]) =
      s.map (fun m => (m, 1)) ++ [(n, n)] := by
    rw [List.zip_append (by simp), ← List.map_prod_left_eq_zip]
    rfl
  unfold broadcast?
  simp only [hleft, hright, hzip]
  refine mapM_eq_some_iff.mpr (List.rel_append ?_ (.cons (broadcastAxis?_self n) .nil))
  refine List.forall₂_map_left_iff.mpr (List.forall₂_same.mpr ?_)
  exact fun m _ => broadcastAxis?_one m

end Extents

variable {α : Type} [Scalar α]

/-! ## Arrays -/

namespace DenseArray

variable {a b : DenseArray α} {s : Extents}

theorem broadcast_ok {operation : String} {f : α → α → α}
    (h : a.extents.broadcast? b.extents = some s) :
    a.broadcast operation f b = .ok (broadcastWith s f a b) := by
  unfold broadcast
  rw [h]

omit [Scalar α] in
theorem ofList_ok {values : List α} (hs : s.addressable = true)
    (hlen : values.length = s.size) :
    ofList s values = .ok ⟨s, values.toArray, by simpa using hlen⟩ := by
  unfold ofList
  rw [hs, dif_pos hlen]
  rfl

omit [Scalar α] in
theorem ofList_error {values : List α} (hs : s.addressable = false) :
    ofList s values = .error (.array .overflow) := by
  unfold ofList
  rw [hs]
  rfl

theorem partStart_replicate (m n : Nat) :
    partStart (List.replicate m n) (List.replicate m n).length = m * n := by
  induction m with
  | zero => simp [partStart]
  | succ m ih =>
    rw [List.replicate_succ, List.length_cons, partStart, ih, Nat.succ_mul,
      Nat.add_comm]

theorem concat_eq {axis : Nat} {arrays : List (DenseArray α)} (hne : arrays ≠ [])
    (hall : ∀ a ∈ arrays, a.extents = s) (haxis : axis < s.length) :
    let joined : Extents := s.set axis (arrays.length * s.getD axis 0)
    (joined.addressable = true →
      ∃ a, concat axis arrays = .ok a ∧ a.extents = joined) ∧
    (joined.addressable = false → ∃ e, concat axis arrays = .error e) := by
  intro joined
  obtain ⟨first, rest, rfl⟩ := List.exists_cons_of_ne_nil hne
  have hfirst : first.extents = s := hall first List.mem_cons_self
  have hlengths : (first :: rest).map (fun p : DenseArray α => p.extents.getD axis 0) =
      List.replicate (first :: rest).length (s.getD axis 0) := by
    refine List.eq_replicate_iff.mpr ⟨List.length_map _, ?_⟩
    refine List.forall_mem_map.mpr fun a ha => ?_
    rw [hall a ha]
  have hsame : ((first :: rest).all fun p : DenseArray α => p.rank == first.rank &&
      p.extents.eraseIdx axis == first.extents.eraseIdx axis) = true := by
    refine List.all_eq_true.mpr fun a ha => ?_
    simp [rank, hall a ha, hfirst]
  have hjoined : first.extents.set axis (partStart
      ((first :: rest).map fun p : DenseArray α => p.extents.getD axis 0)
      ((first :: rest).map fun p : DenseArray α => p.extents.getD axis 0).length) = joined := by
    rw [hlengths, partStart_replicate, hfirst]
  have haxis' : axis < first.extents.length := hfirst.symm ▸ haxis
  unfold concat Rearrangement.checkAxis
  simp only [haxis', if_true, hsame, hjoined]
  constructor
  · intro haddressable
    rw [haddressable]
    exact ⟨_, rfl, rfl⟩
  · intro haddressable
    rw [haddressable]
    exact ⟨_, rfl⟩

end DenseArray

/-! ## Operations -/

namespace Run

variable {Γ : Context} {a b x : Tensor} {s s' r : Extents}

/-- An operation on the values of two arrays that go together. -/
theorem Makes.broadcast {name : String} {f : α → α → α} (ha : (a, s) ∈ Γ) (hb : (b, s') ∈ Γ)
    (h : s.broadcast? s' = some r) (op : DenseArray α → DenseArray α → Operation α) :
    Makes Γ (Run.value a >>= fun x => Run.value b >>= fun y =>
      Run.check (x.broadcast name f y) >>= fun z => Run.record (op x y) z) r := by
  refine Ends.value ha fun x hx => Ends.value hb fun y hy => ?_
  subst hx hy
  exact Ends.check (DenseArray.broadcast_ok h) (Makes.record _ rfl)

theorem Makes.add (ha : (a, s) ∈ Γ) (hb : (b, s') ∈ Γ) (h : s.broadcast? s' = some r) :
    Makes Γ (a.add b : Run α Tensor) r := .broadcast ha hb h _

theorem Makes.sub (ha : (a, s) ∈ Γ) (hb : (b, s') ∈ Γ) (h : s.broadcast? s' = some r) :
    Makes Γ (a.sub b : Run α Tensor) r := .broadcast ha hb h _

theorem Makes.mul (ha : (a, s) ∈ Γ) (hb : (b, s') ∈ Γ) (h : s.broadcast? s' = some r) :
    Makes Γ (a.mul b : Run α Tensor) r := .broadcast ha hb h _

theorem Makes.relu (ha : (a, s) ∈ Γ) : Makes Γ (a.relu : Run α Tensor) s :=
  Ends.value ha fun _ hx => Makes.record _ hx

theorem Makes.sigmoid (ha : (a, s) ∈ Γ) : Makes Γ (a.sigmoid : Run α Tensor) s :=
  Ends.value ha fun _ hx => Makes.record _ hx

theorem Makes.tanh (ha : (a, s) ∈ Γ) : Makes Γ (a.tanh : Run α Tensor) s :=
  Ends.value ha fun _ hx => Makes.record _ hx

theorem Makes.activation (f : Activation) (ha : (a, s) ∈ Γ) :
    Makes Γ (f.apply a : Run α Tensor) s := by
  cases f with
  | relu => exact Makes.relu ha
  | sigmoid => exact Makes.sigmoid ha
  | tanh => exact Makes.tanh ha

theorem Makes.matmul {n k : Nat} (ha : (a, s) ∈ Γ) (hb : (b, [n, k]) ∈ Γ)
    (hk : s.getLast? = some k) (h : DenseArray.contractsTo (s.dropLast ++ [n]) k = true) :
    Makes Γ (a.matmul b : Run α Tensor) (s.dropLast ++ [n]) := by
  refine Ends.value ha fun x hx => Ends.value hb fun y hy => ?_
  subst hx
  exact Ends.check (DenseArray.matmul_ok hy hk h) (Makes.record _ rfl)

theorem Stuck.matmul {n k : Nat} (ha : (a, s) ∈ Γ) (hb : (b, [n, k]) ∈ Γ)
    (h : ¬(s.getLast? = some k ∧ DenseArray.contractsTo (s.dropLast ++ [n]) k = true)) :
    Stuck Γ (a.matmul b : Run α Tensor) := by
  refine Ends.value ha fun x hx => Ends.value hb fun y hy => ?_
  subst hx
  obtain ⟨e, herror⟩ := DenseArray.matmul_error hy h
  exact Stuck.check herror

/-! ### Rearrangements -/

theorem Makes.rearrange {plan : Extents → Except Error Rearrangement} {p : Rearrangement}
    (ha : (a, s) ∈ Γ) (h : plan s = .ok p) (hr : p.extents = r) :
    Makes Γ (a.rearrange plan : Run α Tensor) r := by
  refine Ends.value ha fun x hx => ?_
  subst hx
  exact Ends.check h (Makes.record _ hr)

theorem Stuck.rearrange {plan : Extents → Except Error Rearrangement} {e : Error}
    (ha : (a, s) ∈ Γ) (h : plan s = .error e) : Stuck Γ (a.rearrange plan : Run α Tensor) := by
  refine Ends.value ha fun x hx => ?_
  subst hx
  exact Stuck.check h

theorem Makes.reshape (ha : (a, s) ∈ Γ) (hr : r.addressable = true) (hsize : s.size = r.size) :
    Makes Γ (a.reshape r : Run α Tensor) r := by
  unfold Tensor.reshape
  exact Makes.rearrange ha (if_pos ⟨hr, hsize⟩) rfl

theorem Stuck.reshape (ha : (a, s) ∈ Γ) (hr : r.addressable = false) :
    Stuck Γ (a.reshape r : Run α Tensor) := by
  unfold Tensor.reshape
  refine Stuck.rearrange ha (if_neg fun h => ?_)
  rw [hr] at h
  cases h.1

theorem Makes.select (axis : Nat) {index : Nat} (ha : (a, s) ∈ Γ) (haxis : axis < s.length)
    (hindex : index < s.getD axis 0) :
    Makes Γ (a.select axis index : Run α Tensor) (s.eraseIdx axis) := by
  have hplan : Rearrangement.select s axis index =
      .ok ⟨s.eraseIdx axis, fun i => i.insertIdx axis index, .select axis index⟩ := by
    unfold Rearrangement.select Rearrangement.checkAxis
    rw [if_pos haxis, if_pos hindex]
    rfl
  unfold Tensor.select
  exact Makes.rearrange ha hplan rfl

theorem Makes.slice {start stop last : Nat} (ha : (a, s ++ [last]) ∈ Γ) (hstart : start ≤ stop)
    (hstop : stop ≤ last) : Makes Γ (a.slice start stop : Run α Tensor) (s ++ [stop - start]) := by
  have hplan : Rearrangement.slice (s ++ [last]) start stop =
      .ok (.window (s ++ [last]) s.length start (stop - start)) := by
    unfold Rearrangement.slice
    rw [List.getLast?_concat]
    dsimp only
    rw [if_pos ⟨hstart, hstop⟩, List.length_append, List.length_singleton, Nat.add_sub_cancel]
  have hextents : (s ++ [last]).set s.length (stop - start) = s ++ [stop - start] := by
    simp [List.set_append_right]
  unfold Tensor.slice
  exact Makes.rearrange ha hplan hextents

/-! ### Joining -/

omit [Scalar α] in
theorem Gives.mapM {ts : List Tensor} {f : Tensor → Run α Tensor}
    (h : ∀ t ∈ ts, ∀ Γ', Γ ⊆ Γ' → Makes Γ' (f t) r) :
    Gives Γ (ts.mapM f) fun rs Δ => rs.length = ts.length ∧ Δ = rs.map (·, r) := by
  induction ts generalizing Γ with
  | nil =>
    rw [List.mapM_nil]
    exact Gives.pure ⟨rfl, rfl⟩ (List.Subset.refl _)
  | cons t ts ih =>
    obtain ⟨ht, hts⟩ := List.forall_mem_cons.mp h
    rw [List.mapM_cons]
    refine Makes.bind (ht Γ (List.Subset.refl _)) fun b => ?_
    have hrest := ih (Γ := (b, r) :: Γ) fun t ht Γ' hsub =>
      hts t ht Γ' (List.subset_of_cons_subset hsub)
    refine Gives.bind hrest fun rs Δ hrs => ?_
    obtain ⟨hlen, rfl⟩ := hrs
    refine Gives.pure ⟨congrArg (· + 1) hlen, rfl⟩ ?_
    rw [List.map_cons]
    intro p hp
    simp only [List.mem_append, List.mem_cons] at hp ⊢
    tauto

omit [Scalar α] in
theorem extents_parts {w : Workspace α} {parts : List Tensor} (hw : w.Models Γ)
    (hall : ∀ t ∈ parts, (t, s) ∈ Γ) : ∀ a ∈ parts.map w.value, a.extents = s :=
  List.forall_mem_map.mpr fun t ht => Workspace.extents_value (hw _ (hall t ht))

theorem Makes.concat {parts : List Tensor} {axis : Nat} (hne : parts ≠ [])
    (hall : ∀ t ∈ parts, (t, s) ∈ Γ) (haxis : axis < s.length)
    (hr : r = s.set axis (parts.length * s.getD axis 0)) (haddressable : r.addressable = true) :
    Makes Γ (Tensor.concat parts axis : Run α Tensor) r := by
  refine Ends.get fun w hw => ?_
  have hparts : parts.map w.value ≠ [] := mt List.map_eq_nil_iff.mp hne
  have hconcat := (DenseArray.concat_eq hparts (extents_parts hw hall) haxis).1
  rw [List.length_map, ← hr] at hconcat
  obtain ⟨a, ha, hextents⟩ := hconcat haddressable
  exact Ends.check ha (Makes.record _ hextents)

theorem Stuck.concat {parts : List Tensor} {axis : Nat} (hne : parts ≠ [])
    (hall : ∀ t ∈ parts, (t, s) ∈ Γ) (haxis : axis < s.length)
    (hr : r = s.set axis (parts.length * s.getD axis 0)) (haddressable : r.addressable = false) :
    Stuck Γ (Tensor.concat parts axis : Run α Tensor) := by
  refine Ends.get fun w hw => ?_
  have hparts : parts.map w.value ≠ [] := mt List.map_eq_nil_iff.mp hne
  have hconcat := (DenseArray.concat_eq hparts (extents_parts hw hall) haxis).2
  rw [List.length_map, ← hr] at hconcat
  obtain ⟨e, he⟩ := hconcat haddressable
  exact Stuck.check he

/-- One step of `stack`: the array with a new axis. -/
def raise (axis : Nat) (t : Tensor) : Run α Tensor := do
  let s := (← value t).extents
  if axis ≤ s.length then t.reshape (s.insertIdx axis 1)
  else throw (.invalidArgument (.axis "stack" axis s.length))

theorem stack_eq (parts : List Tensor) (axis : Nat) :
    (Tensor.stack parts axis : Run α Tensor) =
      parts.mapM (raise axis) >>= fun raised => Tensor.concat raised axis := rfl

theorem Makes.raise {axis : Nat} (ha : (a, s) ∈ Γ) (haxis : axis ≤ s.length)
    (haddressable : s.addressable = true) :
    Makes Γ (raise axis a : Run α Tensor) (s.insertIdx axis 1) := by
  refine Ends.value ha fun x hx => ?_
  subst hx
  dsimp only
  rw [if_pos haxis]
  refine Makes.reshape ha ?_ ?_
  · rw [Extents.addressable_insertIdx 1 haxis, Extents.addressable_one_cons, haddressable]
  · rw [Extents.size_insertIdx 1 haxis, Nat.one_mul]

theorem Stuck.raise {axis : Nat} (ha : (a, s) ∈ Γ) (haxis : axis ≤ s.length)
    (haddressable : s.addressable = false) : Stuck Γ (raise axis a : Run α Tensor) := by
  refine Ends.value ha fun x hx => ?_
  subst hx
  dsimp only
  rw [if_pos haxis]
  refine Stuck.reshape ha ?_
  rw [Extents.addressable_insertIdx 1 haxis, Extents.addressable_one_cons, haddressable]

section

variable {parts raised : List Tensor} {axis : Nat}

/-- The extents of the joined array, told from those of the raised parts. -/
theorem insertIdx_length (haxis : axis ≤ s.length) (hlen : raised.length = parts.length) :
    s.insertIdx axis parts.length = (s.insertIdx axis 1).set axis
      (raised.length * (s.insertIdx axis 1).getD axis 0) := by
  have hlt : axis < (s.insertIdx axis 1).length := by
    rw [List.length_insertIdx_of_le_length haxis]
    omega
  have hone : (s.insertIdx axis 1).getD axis 0 = 1 := by
    rw [List.getD_eq_getElem?_getD, List.getElem?_eq_getElem hlt, List.getElem_insertIdx_self,
      Option.getD_some]
  rw [hone, Nat.mul_one, hlen, Extents.set_insertIdx 1 _ haxis]

/-- Joined along a new axis, arrays of the same extents make one if it can be addressed. -/
theorem Makes.stack (hne : parts ≠ []) (hall : ∀ t ∈ parts, (t, s) ∈ Γ) (haxis : axis ≤ s.length)
    (haddressable : Extents.addressable (parts.length :: s) = true) :
    Makes Γ (Tensor.stack parts axis : Run α Tensor) (s.insertIdx axis parts.length) := by
  have hparts := Extents.addressable_of_cons haddressable
  rw [stack_eq]
  refine Gives.bind (Gives.mapM fun t ht Γ' hsub => Makes.raise (hsub (hall t ht)) haxis hparts) ?_
  rintro raised _ ⟨hlen, rfl⟩
  have hlt : axis < (s.insertIdx axis 1).length := by
    rw [List.length_insertIdx_of_le_length haxis]
    omega
  refine Gives.forget (Makes.concat ?_ ?_ hlt (insertIdx_length haxis hlen) ?_) ?_
  · exact List.ne_nil_of_length_pos (hlen ▸ List.length_pos_of_ne_nil hne)
  · exact fun t ht => List.mem_append_left _ (List.mem_map.mpr ⟨t, ht, rfl⟩)
  · rwa [Extents.addressable_insertIdx _ haxis]
  · exact List.subset_append_right _ _

theorem Stuck.stack (hne : parts ≠ []) (hall : ∀ t ∈ parts, (t, s) ∈ Γ) (haxis : axis ≤ s.length)
    (haddressable : Extents.addressable (parts.length :: s) = false) :
    Stuck Γ (Tensor.stack parts axis : Run α Tensor) := by
  rw [stack_eq]
  cases hparts : s.addressable with
  | false =>
    obtain ⟨first, rest, rfl⟩ := List.exists_cons_of_ne_nil hne
    rw [List.mapM_cons]
    exact ((Stuck.raise (hall first List.mem_cons_self) haxis hparts).bind _).bind _
  | true =>
    refine Gives.bind (Gives.mapM fun t ht Γ' hsub => Makes.raise (hsub (hall t ht)) haxis hparts) ?_
    rintro raised _ ⟨hlen, rfl⟩
    have hlt : axis < (s.insertIdx axis 1).length := by
      rw [List.length_insertIdx_of_le_length haxis]
      omega
    refine Stuck.concat ?_ ?_ hlt (insertIdx_length haxis hlen) ?_
    · exact List.ne_nil_of_length_pos (hlen ▸ List.length_pos_of_ne_nil hne)
    · exact fun t ht => List.mem_append_left _ (List.mem_map.mpr ⟨t, ht, rfl⟩)
    · rwa [Extents.addressable_insertIdx _ haxis]

end

end Run

end NeuralNet
