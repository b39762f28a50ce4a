import NeuralNet.Dataset
import NeuralNet.Proofs.DenseArray.Normalization
import NeuralNet.Proofs.DenseArray.Windows

/-!
# Samples of an array

The samples of an array are its entries on the first axis. What is computed for some of them, in any
order and any number of times, is what is computed for all and then chosen from: for every operation
that layers use, as long as operands without samples have no axis to match them.

* `Picks`: an array of samples that were chosen from another;
* `Agree`: two computations whose results are so related, if both succeed.
-/

namespace NeuralNet

/-- Where both computations succeed, their results are related. -/
def Agree {ε β γ : Type} (r : β → γ → Prop) (x : Except ε β) (y : Except ε γ) : Prop :=
  ∀ b c, x = .ok b → y = .ok c → r b c

section

variable {ε β γ δ ζ : Type} {r : β → γ → Prop} {q : δ → ζ → Prop} {x : Except ε β}
  {y : Except ε γ} {f : β → Except ε δ} {g : γ → Except ε ζ}

theorem Agree.bind (hx : Agree r x y) (hf : ∀ b c, r b c → Agree q (f b) (g c)) :
    Agree q (x >>= f) (y >>= g) := by
  intro d e hd he
  obtain ⟨b, hb, hd⟩ := bind_eq_ok_iff.mp hd
  obtain ⟨c, hc, he⟩ := bind_eq_ok_iff.mp he
  exact hf b c (hx b c hb hc) d e hd he

theorem Agree.ok {b : β} {c : γ} (h : r b c) : Agree r (.ok b : Except ε β) (.ok c) := by
  rintro _ _ ⟨⟩ ⟨⟩
  exact h

end

namespace DenseArray

variable {α β : Type}

/-- The second array has the samples of the first that are at these positions; a sample has the
extents `s`. -/
structure Picks [Zero α] (idx : List Nat) (n : Nat) (s : Extents) (a a' : DenseArray α) : Prop where
  extents : a.extents = n :: s
  picked : a'.extents = idx.length :: s
  get : ∀ j i, (hj : j < idx.length) → s.Contains i → a'.get (j :: i) = a.get (idx[j] :: i)

variable {idx : List Nat} {n m k : Nat} {s s' : Extents}

section

variable [Zero α] [Zero β] {a a' b b' : DenseArray α}

theorem selectFirst_picks (idx : List Nat) (h : a.extents = n :: s) :
    Picks idx n s a (a.selectFirst idx) := by
  have htail : a.extents.tail = s := by rw [h, List.tail_cons]
  refine ⟨h, congrArg (idx.length :: ·) htail, fun j i hj hi => ?_⟩
  have hget := get_gather (s := idx.length :: a.extents.tail) (i := j :: i) ⟨hj, htail ▸ hi⟩ a
    fun i => idx.toArray.getD (i.headD 0) 0 :: i.tail
  refine hget.trans ?_
  simp [hj]

/-- The chosen samples are determined. -/
theorem Picks.eq_selectFirst (h : Picks idx n s a a') : a' = a.selectFirst idx := by
  have hselect := selectFirst_picks idx h.extents
  refine ext_get (h.picked.trans hselect.picked.symm) fun i hi => ?_
  rw [h.picked] at hi
  obtain ⟨j, l, rfl, hj, hl⟩ := Extents.exists_of_contains_cons hi
  rw [h.get j l hj hl, hselect.get j l hj hl]

/-- Samples chosen from chosen ones. -/
theorem selectFirst_selectFirst {ks : List Nat} (h : a.extents = n :: s)
    (hks : ∀ k ∈ ks, k < idx.length) :
    (a.selectFirst idx).selectFirst ks = a.selectFirst (ks.map fun k => idx.getD k 0) := by
  have hpicks := selectFirst_picks idx h
  have hagain := selectFirst_picks ks hpicks.picked
  have hpicked : ((a.selectFirst idx).selectFirst ks).extents =
      (ks.map fun k => idx.getD k 0).length :: s := by
    rw [hagain.picked, List.length_map]
  refine Picks.eq_selectFirst (s := s) ⟨h, hpicked, fun j i hj hi => ?_⟩
  rw [List.length_map] at hj
  have hlt : ks[j] < idx.length := hks _ (List.getElem_mem hj)
  have hchosen : idx.getD ks[j] 0 = idx[ks[j]] := by simp [hlt]
  rw [hagain.get j i hj hi, hpicks.get ks[j] i hlt hi, List.getElem_map, hchosen]

variable (hidx : ∀ j ∈ idx, j < n)

include hidx

theorem Picks.contains {j : Nat} {i : List Nat} (hj : j < idx.length) (hi : s.Contains i) :
    Extents.Contains (n :: s) (idx[j] :: i) := ⟨hidx _ (List.getElem_mem hj), hi⟩

theorem Picks.map (h : Picks idx n s a a') (f : α → β) : Picks idx n s (a.map f) (a'.map f) := by
  refine ⟨h.extents, h.picked, fun j i hj hi => ?_⟩
  have hcontains := Picks.contains hidx hj hi
  rw [← h.extents] at hcontains
  rw [get_map f (h.picked ▸ ⟨hj, hi⟩), get_map f hcontains, h.get j i hj hi]

theorem picks_full (s : Extents) (x : α) :
    Picks idx n s (full (n :: s) x) (full (idx.length :: s) x) := by
  refine ⟨rfl, rfl, fun j i hj hi => ?_⟩
  have hcontains : Extents.Contains (idx.length :: s) (j :: i) := ⟨hj, hi⟩
  rw [get_full x hcontains, get_full x (Picks.contains hidx hj hi)]

/-- A rearrangement that leaves the samples apart. -/
theorem Picks.rearrange {r r' : Rearrangement} (h : Picks idx n s a a') (q : List Nat → List Nat)
    (hr : r.extents = n :: s') (hr' : r'.extents = idx.length :: s')
    (hplace : ∀ j i, j < n → s'.Contains i → r.place (j :: i) = j :: q i)
    (hplace' : ∀ j i, j < idx.length → s'.Contains i → r'.place (j :: i) = j :: q i)
    (hq : ∀ i, s'.Contains i → s.Contains (q i)) :
    Picks idx n s' (a.rearrange r) (a'.rearrange r') := by
  refine ⟨hr, hr', fun j i hj hi => ?_⟩
  have hlt : idx[j] < n := hidx _ (List.getElem_mem hj)
  rw [DenseArray.rearrange, DenseArray.rearrange, get_gather (hr' ▸ ⟨hj, hi⟩),
    get_gather (hr ▸ ⟨hlt, hi⟩), hplace _ i hlt hi, hplace' j i hj hi, h.get j _ hj (hq i hi)]

end

variable [Scalar α] {a a' b b' : DenseArray α}

section

variable (hidx : ∀ j ∈ idx, j < n)

include hidx

/-! ## Values combined -/

/-- Arrays with the same samples, combined value by value. -/
theorem Picks.broadcast {name : String} {f : α → α → α} (ha : Picks idx n s a a')
    (hb : Picks idx n s b b') :
    Agree (Picks idx n s) (a.broadcast name f b) (a'.broadcast name f b') := by
  intro y y' hy hy'
  have hr : a.extents.broadcast? b.extents = some (n :: s) := by
    rw [ha.extents, hb.extents, Extents.broadcast?_self]
  have hr' : a'.extents.broadcast? b'.extents = some (idx.length :: s) := by
    rw [ha.picked, hb.picked, Extents.broadcast?_self]
  cases (broadcast_ok hr).symm.trans hy
  cases (broadcast_ok hr').symm.trans hy'
  refine ⟨rfl, rfl, fun j i hj hi => ?_⟩
  have hcontains := Picks.contains hidx hj hi
  have hcontains' : Extents.Contains (idx.length :: s) (j :: i) := ⟨hj, hi⟩
  rw [get_broadcastWith _ _ _ hcontains, get_broadcastWith _ _ _ hcontains', ha.extents, hb.extents,
    ha.picked, hb.picked, Extents.project_self hcontains, Extents.project_self hcontains',
    ha.get j i hj hi, hb.get j i hj hi]

/-- A vector is combined with every row of every sample. -/
theorem Picks.broadcastRow {name : String} {f : α → α → α} (ha : Picks idx n (s ++ [m]) a a')
    (hb : b.extents = [m]) :
    Agree (Picks idx n (s ++ [m])) (a.broadcast name f b) (a'.broadcast name f b) := by
  intro y y' hy hy'
  have hr : a.extents.broadcast? b.extents = some (n :: (s ++ [m])) := by
    rw [ha.extents, hb]
    exact Extents.broadcast?_last (n :: s) m
  have hr' : a'.extents.broadcast? b.extents = some (idx.length :: (s ++ [m])) := by
    rw [ha.picked, hb]
    exact Extents.broadcast?_last (idx.length :: s) m
  cases (broadcast_ok hr).symm.trans hy
  cases (broadcast_ok hr').symm.trans hy'
  refine ⟨rfl, rfl, fun j i hj hi => ?_⟩
  have hcontains := Picks.contains hidx hj hi
  have hcontains' : Extents.Contains (idx.length :: (s ++ [m])) (j :: i) := ⟨hj, hi⟩
  have hlen : [m].length ≤ i.length := by
    rw [Extents.length_of_contains hi, List.length_append]
    exact Nat.le_add_left _ _
  rw [get_broadcastWith _ _ _ hcontains, get_broadcastWith _ _ _ hcontains', ha.extents, hb,
    ha.picked, Extents.project_self hcontains, Extents.project_self hcontains',
    ha.get j i hj hi, Extents.project_cons hlen, Extents.project_cons hlen]

omit hidx in
theorem matmul_eq_ok {y : DenseArray α} (hb : b.extents = [m, k]) (h : a.matmul b = .ok y) :
    y = contract a b m k := by
  by_cases hmakes : a.extents.getLast? = some k ∧
      contractsTo (a.extents.dropLast ++ [m]) k = true
  · cases (matmul_ok hb hmakes.1 hmakes.2).symm.trans h
    rfl
  · obtain ⟨e, he⟩ := matmul_error hb hmakes
    cases h.symm.trans he

/-- Every row of a sample is multiplied by itself. -/
theorem Picks.matmul (ha : Picks idx n (s ++ [k]) a a') (hb : b.extents = [m, k]) :
    Agree (Picks idx n (s ++ [m])) (a.matmul b) (a'.matmul b) := by
  have hrows : ∀ c : Nat, c :: (s ++ [k]) = (c :: s) ++ [k] := fun _ => rfl
  have hextents : ∀ {x : DenseArray α} {c : Nat}, x.extents = c :: (s ++ [k]) →
      (contract x b m k).extents = c :: (s ++ [m]) := by
    intro x c hx
    rw [contract, extents_generate, hx, hrows, List.dropLast_concat, List.cons_append]
  intro y y' hy hy'
  obtain rfl := matmul_eq_ok hb hy
  obtain rfl := matmul_eq_ok hb hy'
  refine ⟨hextents ha.extents, hextents ha.picked, fun j i hj hi => ?_⟩
  obtain ⟨l, t, rfl, hl, ht⟩ := Extents.exists_of_contains_concat hi
  have hleft := get_contract (a := a') (b := b) (s := idx.length :: s) (l := j :: l) ha.picked
    ⟨hj, hl⟩ ht
  have hright := get_contract (a := a) (b := b) (s := n :: s) (l := idx[j] :: l) ha.extents
    (Picks.contains hidx hj hl) ht
  refine hleft.trans (Eq.trans (sumUpTo_congr fun c hc => ?_) hright.symm)
  rw [List.cons_append, List.cons_append,
    ha.get j (l ++ [c]) hj (Extents.contains_concat.mpr ⟨hl, hc⟩)]

/-! ## Values elsewhere -/

/-- One index of the axis behind the samples. -/
theorem Picks.select {time t : Nat} (h : Picks idx n (time :: s) a a') :
    Agree (Picks idx n s) (a.select 1 t) (a'.select 1 t) := by
  intro y y' hy hy'
  obtain ⟨r, hr, rfl⟩ := arrange_eq_ok hy
  obtain ⟨r', hr', rfl⟩ := arrange_eq_ok hy'
  obtain ⟨-, ht, rfl⟩ := select_eq_ok hr
  obtain ⟨-, -, rfl⟩ := select_eq_ok hr'
  rw [h.extents] at ht
  refine h.rearrange hidx (t :: ·) (by rw [h.extents]; rfl) (by rw [h.picked]; rfl)
    (fun _ _ _ _ => rfl) (fun _ _ _ _ => rfl) fun i hi => ⟨ht, hi⟩

omit hidx [Scalar α] in
theorem modify_concat (l : List Nat) (t : Nat) (f : Nat → Nat) :
    (l ++ [t]).modify l.length f = l ++ [f t] := by
  induction l with
  | nil => rfl
  | cons j l ih =>
    rw [List.cons_append, List.length_cons, List.modify_succ_cons, ih, List.cons_append]

/-- A range of the last axis. -/
theorem Picks.slice {start stop : Nat} (h : Picks idx n (s ++ [m]) a a') :
    Agree (Picks idx n (s ++ [stop - start])) (a.slice start stop) (a'.slice start stop) := by
  intro y y' hy hy'
  obtain ⟨r, hr, rfl⟩ := arrange_eq_ok hy
  obtain ⟨r', hr', rfl⟩ := arrange_eq_ok hy'
  rw [h.extents] at hr
  rw [h.picked] at hr'
  obtain ⟨hstart, hstop, rfl⟩ := slice_eq_ok (s := n :: s) hr
  obtain ⟨-, -, rfl⟩ := slice_eq_ok (s := idx.length :: s) hr'
  refine h.rearrange hidx (fun i => i.modify s.length (· + start)) rfl rfl
    (fun _ _ _ _ => rfl) (fun _ _ _ _ => rfl) fun i hi => ?_
  obtain ⟨l, t, rfl, hl, ht⟩ := Extents.exists_of_contains_concat hi
  rw [← Extents.length_of_contains hl, modify_concat]
  exact Extents.contains_concat.mpr ⟨hl, by omega⟩

/-- All axes of a sample as one. -/
theorem Picks.flatten (h : Picks idx n s a a') :
    Agree (Picks idx n [s.size]) (a.reshape [n, s.size]) (a'.reshape [idx.length, s.size]) := by
  have hplace : ∀ (c j : Nat) (i : List Nat), Extents.Contains [s.size] i →
      Extents.unravel (c :: s) (Extents.ravel [c, s.size] (j :: i)) =
        j :: s.unravel (i.headD 0) := by
    intro c j i hi
    obtain ⟨t, l, rfl, ht, hl⟩ := Extents.exists_of_contains_cons hi
    have hpos : 0 < s.size := by omega
    simp only [Extents.ravel, Extents.size, Extents.unravel, Nat.mul_one, Nat.add_zero,
      List.headD_cons]
    rw [Nat.mul_comm, Nat.mul_add_div hpos, Nat.div_eq_of_lt ht, Nat.mul_add_mod,
      Nat.mod_eq_of_lt ht, Nat.add_zero]
  intro y y' hy hy'
  obtain ⟨r, hr, rfl⟩ := arrange_eq_ok hy
  obtain ⟨r', hr', rfl⟩ := arrange_eq_ok hy'
  obtain rfl := regroup_eq_ok hr
  obtain rfl := regroup_eq_ok hr'
  rw [h.extents, h.picked]
  refine h.rearrange hidx (fun i => s.unravel (i.headD 0)) rfl rfl
    (fun j i _ hi => hplace n j i hi) (fun j i _ hi => hplace _ j i hi) fun i hi => ?_
  obtain ⟨t, l, rfl, ht, -⟩ := Extents.exists_of_contains_cons hi
  exact Extents.contains_unravel ht

/-! ## Stacked arrays -/

/-- Arrays of the samples behind each other, on an axis behind that of the samples. -/
theorem Picks.stack {parts parts' : List (DenseArray α)} (hne : parts ≠ [])
    (hall : List.Forall₂ (Picks idx n s) parts parts') :
    Agree (Picks idx n (parts.length :: s)) (stack parts 1) (stack parts' 1) := by
  obtain ⟨hlen, hget⟩ := List.forall₂_iff_get.mp hall
  have hne' : parts' ≠ [] := List.ne_nil_of_length_pos (hlen ▸ List.length_pos_of_ne_nil hne)
  intro y y' hy hy'
  obtain ⟨hextents, hvalues⟩ := get_stack (s := n :: s) hne
    (fun p hp => (exists_of_mem_left hall hp).elim fun _ h => h.2.extents) (by simp) hy
  obtain ⟨hextents', hvalues'⟩ := get_stack (s := idx.length :: s) hne'
    (fun p hp => (exists_of_mem_right hall hp).elim fun _ h => h.2.picked) (by simp) hy'
  refine ⟨hextents, hlen ▸ hextents', fun j i hj hi => ?_⟩
  obtain ⟨t, l, rfl, ht, hl⟩ := Extents.exists_of_contains_cons hi
  have hleft := hvalues' t (j :: l) (hlen ▸ ht) ⟨hj, hl⟩
  have hright := hvalues t (idx[j] :: l) ht (Picks.contains hidx hj hl)
  exact hleft.trans (((hget t ht (hlen ▸ ht)).get j l hj hl).trans hright.symm)

end

/-- The entries of the second axis that a list of positions names. -/
def selectSecond (a : DenseArray α) (positions : List Nat) : DenseArray α :=
  a.gather (a.extents.set 1 positions.length) fun i => i.modify 1 fun j => positions.getD j 0

/-- The samples are on the second axis, where the second array has those at these positions. -/
structure PicksSecond (idx : List Nat) (n : Nat) (a a' : DenseArray α) : Prop where
  extents : ∃ d s, a.extents = d :: n :: s
  eq_selectSecond : a' = a.selectSecond idx

/-- Arrays of the samples behind each other, on an axis in front of that of the samples. -/
theorem Picks.stackFirst {parts parts' : List (DenseArray α)} (hidx : ∀ j ∈ idx, j < n)
    (hne : parts ≠ []) (hall : List.Forall₂ (Picks idx n s) parts parts') :
    Agree (PicksSecond idx n) (DenseArray.stack parts 0) (DenseArray.stack parts' 0) := by
  obtain ⟨hlen, hget⟩ := List.forall₂_iff_get.mp hall
  have hne' : parts' ≠ [] := List.ne_nil_of_length_pos (hlen ▸ List.length_pos_of_ne_nil hne)
  intro y y' hy hy'
  obtain ⟨hextents, hvalues⟩ := get_stack (s := n :: s) hne
    (fun p hp => (exists_of_mem_left hall hp).elim fun _ h => h.2.extents) (Nat.zero_le _) hy
  obtain ⟨hextents', hvalues'⟩ := get_stack (s := idx.length :: s) hne'
    (fun p hp => (exists_of_mem_right hall hp).elim fun _ h => h.2.picked) (Nat.zero_le _) hy'
  rw [List.insertIdx_zero] at hextents hextents'
  have hselect : (y.selectSecond idx).extents = parts.length :: idx.length :: s := by
    rw [selectSecond, extents_gather, hextents, List.set_cons_succ, List.set_cons_zero]
  refine ⟨⟨_, _, hextents⟩, ext_get (hextents'.trans (hlen ▸ hselect.symm)) fun i hi => ?_⟩
  rw [hextents'] at hi
  obtain ⟨t, i, rfl, ht', hi⟩ := Extents.exists_of_contains_cons hi
  obtain ⟨j, l, rfl, hj, hl⟩ := Extents.exists_of_contains_cons hi
  have ht : t < parts.length := hlen ▸ ht'
  have hleft := hvalues' t (j :: l) ht' ⟨hj, hl⟩
  have hright := hvalues t (idx[j] :: l) ht (Picks.contains hidx hj hl)
  have hpicked : (y.selectSecond idx).get (t :: j :: l) = y.get (t :: idx[j] :: l) := by
    rw [selectSecond, get_gather]
    · simp [hj]
    · rw [hextents]
      exact ⟨ht, hj, hl⟩
  rw [hpicked]
  exact hleft.trans (((hget t ht ht').get j l hj hl).trans hright.symm)

section

variable (hidx : ∀ j ∈ idx, j < n)

include hidx

/-! ## Rows of a table -/

omit hidx in
/-- Every number names the row that is found at its index. -/
theorem get_lookUp {ids table y : DenseArray α} {rows width : Nat}
    (htable : table.extents = [rows, width]) (h : ids.lookUp table = .ok y) :
    y.extents = ids.extents ++ [width] ∧ ∀ i, ids.extents.Contains i →
      ∃ c, Tensor.rowId rows (ids.get i) = .ok c ∧
        ∀ t < width, y.get (i ++ [t]) = table.get [c, t] := by
  unfold lookUp at h
  rw [htable] at h
  obtain ⟨chosen, hchosen, h⟩ := bind_eq_ok_iff.mp h
  obtain ⟨r, hr, h⟩ := bind_eq_ok_iff.mp h
  cases h
  unfold Rearrangement.rows at hr
  split at hr
  · cases hr
    refine ⟨rfl, fun i hi => ⟨_, rowId_of_chosen hchosen hi, fun t ht => ?_⟩⟩
    rw [rearrange, get_gather (Extents.contains_concat.mpr ⟨hi, ht⟩)]
    simp
  · cases hr

theorem Picks.lookUp {table : DenseArray α} {rows width : Nat} (h : Picks idx n s a a')
    (htable : table.extents = [rows, width]) :
    Agree (Picks idx n (s ++ [width])) (a.lookUp table) (a'.lookUp table) := by
  intro y y' hy hy'
  obtain ⟨hextents, hrows⟩ := get_lookUp htable hy
  obtain ⟨hextents', hrows'⟩ := get_lookUp htable hy'
  rw [h.extents] at hextents hrows
  rw [h.picked] at hextents' hrows'
  refine ⟨hextents, hextents', fun j i hj hi => ?_⟩
  obtain ⟨l, t, rfl, hl, ht⟩ := Extents.exists_of_contains_concat hi
  obtain ⟨c, hc, hrow⟩ := hrows (idx[j] :: l) (Picks.contains hidx hj hl)
  obtain ⟨c', hc', hrow'⟩ := hrows' (j :: l) ⟨hj, hl⟩
  -- the numbers are the same, so the rows are
  rw [h.get j l hj hl] at hc'
  cases hc.symm.trans hc'
  exact (hrow' t ht).trans (hrow t ht).symm

/-! ## Normalization -/

omit hidx [Scalar α] in
theorem perChannel_eq_ok {y : DenseArray α} {channels : Nat} {what : String}
    (h : a.perChannel channels what = .ok y) : y = a ∧ a.extents = [channels] := by
  unfold perChannel at h
  split at h
  · rename_i hextents
    cases h
    exact ⟨rfl, hextents⟩
  · cases h

/-- What normalizing makes of a value of a channel. -/
def normalizedValue (gamma beta mean variance : DenseArray α) (epsilon : Single) (channel : Nat)
    (v : α) : α :=
  let inverse := variance.map fun v => 1 / Scalar.sqrt (v + Scalar.ofSingle epsilon)
  (v - mean.get [channel]) * inverse.get [channel] * gamma.get [channel] + beta.get [channel]

omit hidx in
theorem get_normalize {gamma beta mean variance y : DenseArray α} {axis : Nat} {epsilon : Single}
    (h : a.normalize gamma beta mean variance axis epsilon = .ok y) :
    y.extents = a.extents ∧ ∀ i, a.extents.Contains i →
      y.get i = normalizedValue gamma beta mean variance epsilon (i.getD axis 0) (a.get i) := by
  unfold normalize at h
  obtain ⟨hrank, h⟩ := guard_eq_ok_iff.mp h
  obtain ⟨_, hscale, hrest⟩ := bind_eq_ok_iff.mp h
  obtain ⟨_, hshift, hrest⟩ := bind_eq_ok_iff.mp hrest
  obtain ⟨_, hmean, hrest⟩ := bind_eq_ok_iff.mp hrest
  obtain ⟨_, hvariance, hvalue⟩ := bind_eq_ok_iff.mp hrest
  have haxis : axis < a.extents.length := Nat.not_le.mp hrank
  obtain ⟨rfl, hgamma⟩ := perChannel_eq_ok hscale
  obtain ⟨rfl, hbeta⟩ := perChannel_eq_ok hshift
  obtain ⟨rfl, hm⟩ := perChannel_eq_ok hmean
  obtain ⟨rfl, hv⟩ := perChannel_eq_ok hvariance
  cases hvalue
  exact ⟨extents_fromRows _ haxis,
    fun i hi => Normalized.get_output rfl haxis hm hv hgamma hbeta hi⟩

/-- The channels of a sample are normalized as those of any other. -/
theorem Picks.normalize {gamma beta mean variance : DenseArray α} {axis : Nat} {epsilon : Single}
    (h : Picks idx n s a a') (haxis : axis ≠ 0) :
    Agree (Picks idx n s) (a.normalize gamma beta mean variance axis epsilon)
      (a'.normalize gamma beta mean variance axis epsilon) := by
  obtain ⟨below, rfl⟩ := Nat.exists_eq_succ_of_ne_zero haxis
  intro y y' hy hy'
  obtain ⟨hextents, hvalues⟩ := get_normalize hy
  obtain ⟨hextents', hvalues'⟩ := get_normalize hy'
  rw [h.extents] at hextents hvalues
  rw [h.picked] at hextents' hvalues'
  refine ⟨hextents, hextents', fun j i hj hi => ?_⟩
  rw [hvalues' (j :: i) ⟨hj, hi⟩, hvalues _ (Picks.contains hidx hj hi), h.get j i hj hi]
  rfl

end

end DenseArray

/-! ## Convolutions -/

namespace Convolution

open DenseArray (Picks sumUpTo_congr)

variable {α : Type} [Scalar α] {idx : List Nat} {n : Nat} {c : Convolution} {x x' w : DenseArray α}

/-- Every window lies in one sample. -/
theorem picks_apply (hidx : ∀ j ∈ idx, j < n) (hregular : c.Regular)
    (hw : w.extents = c.filters :: c.channels :: c.kernel)
    (h : Picks idx n (c.channels :: c.input) x x') {bias : Option (DenseArray α)}
    (hbias : ∀ b ∈ bias, b.extents = [c.filters]) :
    Picks idx n (c.filters :: c.output) ({ c with batch := n }.apply x w bias)
      ({ c with batch := idx.length }.apply x' w bias) := by
  refine ⟨rfl, rfl, fun j i hj hi => ?_⟩
  obtain ⟨f, o, rfl, hf, ho⟩ := Extents.exists_of_contains_cons hi
  have hpadded : ∀ channel k, Extents.Contains (c.channels :: c.kernel) (channel :: k) →
      c.paddedInput x' j channel o k = c.paddedInput x idx[j] channel o k := by
    intro channel k hk
    unfold paddedInput
    cases hunder : under c.input c.stride c.padding o k with
    | none => rfl
    | some i =>
      refine h.get j (channel :: i) hj ⟨hk.1, ?_⟩
      exact contains_of_under hregular.stride hregular.padding
        ((Extents.length_of_contains ho).trans hregular.output)
        ((Extents.length_of_contains hk.2).trans hregular.kernel) hunder
  have htap : ∀ t < Extents.size (c.channels :: c.kernel),
      c.tap w x' j f o t = c.tap w x idx[j] f o t := by
    intro t ht
    have hk := Extents.contains_unravel ht
    unfold tap
    split
    · rename_i channel k hunravel
      rw [hpadded channel k (hunravel ▸ hk)]
    · rfl
  have hplace : c.place w bias x' j f o = c.place w bias x idx[j] f o := by
    unfold place
    rw [sumUpTo_congr htap]
  exact (get_apply hregular h.picked hw hbias ⟨hj, hi⟩).trans
    (hplace.trans (get_apply hregular h.extents hw hbias (Picks.contains hidx hj hi)).symm)

end Convolution

end NeuralNet
