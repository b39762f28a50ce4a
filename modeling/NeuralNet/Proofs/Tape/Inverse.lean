import NeuralNet.Proofs.Tape.Gather

/-!
# Rearrangements that undo each other

The inverse axes after a permutation, one index of the axis that arrays were stacked along, and the
slices of the last axis between successive points.
-/

namespace NeuralNet

namespace Gathering

variable {α : Type} [Scalar α] {w w' : Workspace α} {a t : Tensor} {parts : List Tensor}
  {axis n : Nat} {s : Extents}

/-! ## Axes -/

section Axes

variable {axes inverse : List Nat}

omit [Scalar α] in
/-- Put back by the inverse axes, numbers are where they were. -/
theorem map_inverse {v : List Nat} (hlen : inverse.length = axes.length)
    (hv : v.length = axes.length)
    (hinverse : ∀ k < axes.length, ∃ m, inverse[k]? = some m ∧ axes[m]? = some k) :
    inverse.map ((axes.map (v.getD · 0)).getD · 0) = v := by
  refine List.ext_getElem (by simp [hlen, hv]) fun k hk hk' => ?_
  obtain ⟨m, hm, hk⟩ := hinverse k (hv ▸ hk')
  obtain ⟨_, rfl⟩ := List.getElem?_eq_some_iff.mp hm
  simp [List.getD_eq_getElem?_getD, hk, hk']

omit [Scalar α] in
theorem perm_inverse (hlen : inverse.length = axes.length)
    (hinverse : ∀ k < axes.length, ∃ m, inverse[k]? = some m ∧ axes[m]? = some k) :
    inverse.Perm (List.range axes.length) := by
  refine Rearrangement.perm_range_iff.mpr ⟨hlen, fun m hmem => ?_,
    List.nodup_iff_getElem?_ne_getElem?.mpr fun i j hij hj heq => ?_⟩
  · obtain ⟨k, hk, rfl⟩ := List.getElem_of_mem hmem
    obtain ⟨m, hm, hback⟩ := hinverse k (hlen ▸ hk)
    obtain ⟨hlt, -⟩ := List.getElem?_eq_some_iff.mp hback
    rw [List.getElem?_eq_getElem hk] at hm
    cases hm
    exact hlt
  · obtain ⟨m, hm, hi⟩ := hinverse i (by omega)
    obtain ⟨m', hm', hj⟩ := hinverse j (by omega)
    rw [heq, hm'] at hm
    cases hm
    rw [hi] at hj
    have := Option.some.inj hj
    omega

theorem permute_back (h : a.permute axes w = (.ok t, w')) (hlen : inverse.length = axes.length)
    (hinverse : ∀ k < axes.length, ∃ m, inverse[k]? = some m ∧ axes[m]? = some k) :
    ∃ t' w'', t.permute inverse w' = (.ok t', w'') ∧ w''.value t' = w.value a := by
  obtain ⟨r, hr, hrecord⟩ := rearrange_ok (Rearrangement.permute · axes) h
  have hvalue := Run.value_record hrecord
  obtain ⟨hextents, hfollows⟩ := Rearrangement.follows_permute hr
  have hrank : (w.value a).extents.length = axes.length := by
    simpa using (Rearrangement.permute_eq_ok_iff.mp hr).1.length_eq.symm
  have hsource : (w'.value t).extents = axes.map ((w.value a).extents.getD · 0) := by
    rw [hvalue]
    exact hextents
  obtain ⟨r', hr'⟩ : ∃ r', Rearrangement.permute (w'.value t).extents inverse = .ok r' := by
    refine ⟨_, Rearrangement.permute_eq_ok_iff.mpr ⟨?_, rfl⟩⟩
    rw [hsource, List.length_map]
    exact perm_inverse hlen hinverse
  obtain ⟨hextents', hfollows'⟩ := Rearrangement.follows_permute hr'
  obtain ⟨t', w'', hrun, -, -, hvalue'⟩ := exists_rearrange (w := w')
    (Rearrangement.permute · inverse) hr'
  refine ⟨t', w'', hrun, ?_⟩
  have hback : r'.extents = (w.value a).extents := by
    rw [hextents', hsource]
    exact map_inverse hlen hrank hinverse
  rw [hvalue']
  refine DenseArray.ext_get hback fun i (hi : r'.extents.Contains i) => ?_
  -- the index in between, and where that is read
  have hj := hfollows'.place i hi
  have hreads := (hfollows'.reads i _ hi hj).mpr rfl
  rw [DenseArray.get_rearrange hfollows' hi hj hreads, hvalue]
  have hjr : r.extents.Contains (r'.place i) := by rwa [hvalue] at hj
  have hl := hfollows.place _ hjr
  have hreads' := (hfollows.reads _ _ hjr hl).mpr rfl
  rw [DenseArray.get_rearrange hfollows hjr hl hreads']
  have hsame : i = r.place (r'.place i) := by
    rw [hreads'] at hreads
    exact hreads.trans (map_inverse hlen ((Extents.length_of_contains hl).trans hrank) hinverse)
  rw [← hsame]

end Axes

/-! ## Stacked arrays -/

theorem select_of_stack (hheld : ∀ t ∈ parts, w.holds t = true)
    (h : Tensor.stack parts axis w = (.ok t, w')) {p : Nat} (hp : parts[p]? = some a) :
    ∃ t' w'', t.select axis p w' = (.ok t', w'') ∧ w''.value t' = w.value a := by
  obtain ⟨raised, w₁, data, off, hraised, hne, hjoined, -, hrecord⟩ := stack_ok hheld h
  have hvalue := Run.value_record hrecord
  have hgathers := hraised.gathers hne hjoined
  have hoff := hraised.extents_eq hjoined hp
  obtain ⟨hlt, -⟩ := List.getElem?_eq_some_iff.mp hp
  have hextents : (w'.value t).extents = off.insertIdx axis parts.length := by
    rw [hvalue, hjoined.extents, hraised.lengths_eq, List.sum_replicate_nat, Nat.mul_one]
  have haxis : axis < (w'.value t).extents.length := by
    rw [hextents, List.length_insertIdx_of_le_length hjoined.axis_le]
    exact Nat.lt_succ_of_le hjoined.axis_le
  have hplace : p < (w'.value t).extents.getD axis 0 := by
    rw [hextents, DenseArray.getD_insertIdx _ hjoined.axis_le]
    exact hlt
  have hplan := Rearrangement.select_eq_ok_iff.mpr ⟨haxis, hplace, rfl⟩
  obtain ⟨t', w'', hrun, -, -, hvalue'⟩ := exists_rearrange (w := w')
    (Rearrangement.select · axis p) hplan
  refine ⟨t', w'', hrun, ?_⟩
  have herase : (w'.value t).extents.eraseIdx axis = (w.value a).extents := by
    rw [hextents, List.eraseIdx_insertIdx_self, hoff]
  rw [hvalue']
  refine DenseArray.ext_get herase fun i (hi : Extents.Contains _ i) => ?_
  have hia : (w.value a).extents.Contains i := herase ▸ hi
  have hcontains : data.extents.Contains (i.insertIdx axis p) := by
    rw [← hvalue, hextents]
    exact Extents.contains_insertIdx hjoined.axis_le (hoff ▸ hia) hlt
  refine (DenseArray.get_gather hi (w'.value t) _).trans ?_
  rw [hvalue]
  exact hgathers.get _ hcontains p a i ⟨hp, hia, rfl⟩

/-! ## Pieces of the last axis -/

section Pieces

/-- The pieces between successive points. -/
def between (points : List Nat) : List (Nat × Nat) := points.zip points.tail

theorem between_cons (b c : Nat) (points : List Nat) :
    between (b :: c :: points) = (b, c) :: between (c :: points) := rfl

variable {points : List Nat} {b : Nat}

theorem le_of_between (hpoints : (b :: points).Pairwise (· ≤ ·))
    (hlast : ∀ m ∈ b :: points, m ≤ n) : ∀ q ∈ between (b :: points), q.1 ≤ q.2 ∧ q.2 ≤ n := by
  induction points generalizing b with
  | nil => exact List.forall_mem_nil _
  | cons c points ih =>
    obtain ⟨hb, hrest⟩ := List.pairwise_cons.mp hpoints
    obtain ⟨-, hlast⟩ := List.forall_mem_cons.mp hlast
    rw [between_cons]
    exact List.forall_mem_cons.mpr
      ⟨⟨hb c List.mem_cons_self, hlast c List.mem_cons_self⟩, ih hrest hlast⟩

/-- A piece starts where the pieces before it end. -/
theorem start_between (hpoints : (b :: points).Pairwise (· ≤ ·)) {p : Nat} {q : Nat × Nat}
    (hp : (between (b :: points))[p]? = some q) :
    q.1 = b + (((between (b :: points)).map fun q => q.2 - q.1).take p).sum := by
  induction points generalizing b p with
  | nil => cases hp
  | cons c points ih =>
    obtain ⟨hb, hrest⟩ := List.pairwise_cons.mp hpoints
    have hb := hb c List.mem_cons_self
    rw [between_cons] at hp ⊢
    cases p with
    | zero =>
      cases hp
      simp
    | succ p =>
      rw [ih hrest hp, List.map_cons, List.take_succ_cons, List.sum_cons]
      omega

theorem sum_between (hpoints : (b :: points).Pairwise (· ≤ ·)) :
    b + ((between (b :: points)).map fun q => q.2 - q.1).sum = (b :: points).getLastD 0 := by
  induction points generalizing b with
  | nil => simp [between]
  | cons c points ih =>
    obtain ⟨hb, hrest⟩ := List.pairwise_cons.mp hpoints
    have hb := hb c List.mem_cons_self
    have hlast : (b :: c :: points).getLastD 0 = (c :: points).getLastD 0 := by simp
    rw [between_cons, hlast, ← ih hrest, List.map_cons, List.sum_cons]
    omega

/-- An array along part of the last axis of another. -/
structure Piece (x : DenseArray α) (s : Extents) (q : Nat × Nat) (y : DenseArray α) : Prop where
  extents : y.extents = s ++ [q.2 - q.1]
  get : ∀ l k, s.Contains l → k < q.2 - q.1 → y.get (l ++ [k]) = x.get (l ++ [k + q.1])

variable {x : DenseArray α} {xs : List (DenseArray α)} {qs : List (Nat × Nat)} {cuts : List Nat}

theorem Piece.getD_extents {q : Nat × Nat} {y : DenseArray α} (h : Piece x s q y) :
    y.extents.getD s.length 0 = q.2 - q.1 := by
  simp [h.extents]

theorem lengths_pieces (h : List.Forall₂ (Piece x s) qs xs) :
    DenseArray.lengths s.length xs = qs.map fun q => q.2 - q.1 := by
  induction h with
  | nil => rfl
  | cons hpiece _ ih => exact congrArg₂ List.cons hpiece.getD_extents ih

/-- The pieces of an array are joined to the array. -/
theorem concat_pieces (hx : x.extents = s ++ [n]) (hroom : x.extents.addressable = true)
    (hcuts : (0 :: (cuts ++ [n])).Pairwise (· ≤ ·))
    (h : List.Forall₂ (Piece x s) (between (0 :: (cuts ++ [n]))) xs) :
    DenseArray.concat s.length xs = .ok x := by
  have hlengths := lengths_pieces h
  have hpiece : ∀ (p : Nat) (y : DenseArray α), xs[p]? = some y →
      ∃ q, (between (0 :: (cuts ++ [n])))[p]? = some q ∧ Piece x s q y := by
    intro p y hp
    obtain ⟨hlt, rfl⟩ := List.getElem?_eq_some_iff.mp hp
    have hlt' := h.length_eq ▸ hlt
    exact ⟨_, List.getElem?_eq_getElem hlt', h.get hlt' hlt⟩
  have htotal : (DenseArray.lengths s.length xs).sum = n := by
    have hsum := sum_between hcuts
    rwa [Nat.zero_add, ← hlengths, List.getLastD_cons, List.getLastD_concat] at hsum
  have hparts : ∀ y ∈ xs, y.extents = s.insertIdx s.length (y.extents.getD s.length 0) := by
    intro y hy
    obtain ⟨p, hp⟩ := List.getElem?_of_mem hy
    obtain ⟨q, -, hq⟩ := hpiece p y hp
    rw [List.insertIdx_length_self, hq.getD_extents, hq.extents]
  have hne : xs ≠ [] := by
    rintro rfl
    have hlen := h.length_eq
    simp [between] at hlen
  have hwhole : s.insertIdx s.length (DenseArray.lengths s.length xs).sum = x.extents := by
    rw [htotal, List.insertIdx_length_self, hx]
  obtain ⟨y, hconcat, hjoined⟩ := DenseArray.concat_of_parts hne (Nat.le_refl _) hparts
    (hwhole ▸ hroom)
  rw [hconcat]
  refine congrArg _ (DenseArray.ext_get (hjoined.extents.trans hwhole) fun i hi => ?_)
  obtain ⟨p, y', j, hp, hj, rfl⟩ := hjoined.exists_moveInto hi
  obtain ⟨q, hq, hpieces⟩ := hpiece p y' hp
  rw [hjoined.get_moveInto hp hj]
  rw [hpieces.extents] at hj
  obtain ⟨l, k, rfl, hl, hk⟩ := Extents.exists_of_contains_concat hj
  have hlen := Extents.length_of_contains hl
  have hstart : q.1 = ((DenseArray.lengths s.length xs).take p).sum := by
    rw [start_between hcuts hq, Nat.zero_add, ← hlengths]
  have hmoved : DenseArray.moveInto s.length xs p (l ++ [k]) = l ++ [k + q.1] := by
    have hmodify : (l.insertIdx l.length k).modify l.length (· + q.1) =
        l.insertIdx l.length (k + q.1) := modify_insertIdx (Nat.le_refl _) _
    rw [List.insertIdx_length_self, List.insertIdx_length_self, hlen, hstart] at hmodify
    rw [DenseArray.moveInto, hmodify, hstart]
  rw [hmoved, hpieces.get l k hl hk]

/-- Slices of an array, one after the other. -/
theorem exists_slices (hheld : w.holds a = true) (ha : (w.value a).extents = s ++ [n])
    (hqs : ∀ q ∈ qs, q.1 ≤ q.2 ∧ q.2 ≤ n) :
    ∃ ts w', qs.mapM (fun q => a.slice q.1 q.2) w = (.ok ts, w') ∧ w.Keeps w' ∧
      (∀ t ∈ ts, w'.holds t = true) ∧
      List.Forall₂ (Piece (w.value a) s) qs (ts.map w'.value) := by
  induction qs generalizing w with
  | nil => exact ⟨[], w, rfl, .refl w, List.forall_mem_nil _, .nil⟩
  | cons q qs ih =>
    obtain ⟨⟨hstart, hstop⟩, hqs⟩ := List.forall_mem_cons.mp hqs
    obtain ⟨r, hr⟩ : ∃ r, Rearrangement.slice (w.value a).extents q.1 q.2 = .ok r := by
      rw [ha]
      exact ⟨_, Rearrangement.slice_eq_ok_iff.mpr ⟨hstart, hstop, rfl⟩⟩
    obtain ⟨hextents, hfollows⟩ := Rearrangement.follows_slice hr
    rw [ha, List.dropLast_concat] at hextents
    obtain ⟨t, w₁, hfirst, hkeeps, hholds, hvalue⟩ := exists_rearrange (a := a)
      (Rearrangement.slice · q.1 q.2) hr
    have hkept := (hkeeps.retains a hheld).value
    obtain ⟨ts, w', hrest, hkeeps', hheld', hall⟩ := ih (hkeeps.holds a hheld) (hkept ▸ ha) hqs
    have hpiece : Piece (w.value a) s q ((w.value a).rearrange r) := by
      refine ⟨hextents, fun l k hl hk => ?_⟩
      refine DenseArray.get_rearrange hfollows ?_ ?_ ⟨l, k, rfl, rfl⟩
      · rw [hextents]
        exact Extents.contains_concat.mpr ⟨hl, hk⟩
      · rw [ha]
        exact Extents.contains_concat.mpr ⟨hl, by omega⟩
    rw [hkept] at hall
    refine ⟨t :: ts, w', ?_, hkeeps.trans hkeeps',
      List.forall_mem_cons.mpr ⟨hkeeps'.holds t hholds, hheld'⟩, .cons ?_ hall⟩
    · rw [List.mapM_cons]
      exact Run.bind_ok_iff.mpr ⟨t, w₁, hfirst, Run.bind_ok_iff.mpr ⟨ts, w', hrest, rfl⟩⟩
    · rwa [(hkeeps'.retains t hholds).value, hvalue]

/-- Cut into pieces along the last axis and joined again, an array is as it was. -/
theorem concat_of_slices (hheld : w.holds a = true) (ha : (w.value a).extents = s ++ [n])
    (hroom : (w.value a).extents.addressable = true)
    (hcuts : (0 :: (cuts ++ [n])).Pairwise (· ≤ ·)) :
    ∃ t w', (do
        let pieces ← (between (0 :: (cuts ++ [n]))).mapM fun (q : Nat × Nat) => a.slice q.1 q.2
        Tensor.concat pieces s.length) w = (.ok t, w') ∧ w'.value t = w.value a := by
  have hlast : ∀ m ∈ 0 :: (cuts ++ [n]), m ≤ n := by
    rw [← List.cons_append, List.pairwise_append] at hcuts
    rw [← List.cons_append]
    intro m hm
    obtain hm | hm := List.mem_append.mp hm
    · exact hcuts.2.2 m hm n List.mem_cons_self
    · exact Nat.le_of_eq (List.mem_singleton.mp hm)
  obtain ⟨ts, w₁, hslices, -, -, hall⟩ := exists_slices hheld ha (le_of_between hcuts hlast)
  obtain ⟨t, w', hrun, hvalue⟩ := exists_concat (concat_pieces ha hroom hcuts hall)
  exact ⟨t, w', Run.bind_ok_iff.mpr ⟨ts, w₁, hslices, hrun⟩, hvalue⟩

end Pieces

end Gathering

end NeuralNet
