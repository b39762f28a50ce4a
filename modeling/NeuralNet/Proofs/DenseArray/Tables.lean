import Mathlib.Algebra.BigOperators.Ring.Finset
import NeuralNet.Proofs.DenseArray.Samples
import NeuralNet.Proofs.DenseArray.Sums

/-!
# Arrays as functions of their indices

An array of two or three axes is told by a function of as many indices, and an operation on such
arrays by what it does to the functions. Where an operation checks sizes, it succeeds on these.
-/

namespace NeuralNet

open Finset (range)

namespace DenseArray

variable {α β : Type}

/-- Row `n` is `f n`. -/
def grid (rows m : Nat) (f : Nat → Nat → α) : DenseArray α :=
  generate [rows, m] fun i => f (i.getD 0 0) (i.getD 1 0)

/-- Row `t` of block `n` is `f n t`. -/
def cube (blocks rows m : Nat) (f : Nat → Nat → Nat → α) : DenseArray α :=
  generate [blocks, rows, m] fun i => f (i.getD 0 0) (i.getD 1 0) (i.getD 2 0)

variable {N T m k rows : Nat} {s : Extents}

section

variable [Zero α] [Zero β] {a : DenseArray α} {f g : Nat → Nat → α}

theorem eq_generate {f : List Nat → α} (hextents : a.extents = s)
    (h : ∀ i, s.Contains i → a.get i = f i) : a = generate s f := by
  refine ext_get hextents ?_
  intro i hi
  rw [hextents] at hi
  rw [h i hi, get_generate hi]

theorem eq_grid (hextents : a.extents = [N, m])
    (h : ∀ n j, n < N → j < m → a.get [n, j] = f n j) : a = grid N m f := by
  apply eq_generate hextents
  intro i hi
  obtain ⟨n, i, rfl, hn, hi⟩ := Extents.exists_of_contains_cons hi
  obtain ⟨j, i, rfl, hj, hi⟩ := Extents.exists_of_contains_cons hi
  obtain rfl := List.length_eq_zero_iff.mp (Extents.length_of_contains hi)
  exact h n j hn hj

theorem eq_cube {f : Nat → Nat → Nat → α} (hextents : a.extents = [N, T, m])
    (h : ∀ n t j, n < N → t < T → j < m → a.get [n, t, j] = f n t j) : a = cube N T m f := by
  apply eq_generate hextents
  intro i hi
  obtain ⟨n, i, rfl, hn, hi⟩ := Extents.exists_of_contains_cons hi
  obtain ⟨t, i, rfl, ht, hi⟩ := Extents.exists_of_contains_cons hi
  obtain ⟨j, i, rfl, hj, hi⟩ := Extents.exists_of_contains_cons hi
  obtain rfl := List.length_eq_zero_iff.mp (Extents.length_of_contains hi)
  exact h n t j hn ht hj

theorem get_grid {n j : Nat} (hn : n < N) (hj : j < m) (f : Nat → Nat → α) :
    (grid N m f).get [n, j] = f n j := get_generate (s := [N, m]) (i := [n, j]) ⟨hn, hj, trivial⟩ _

theorem get_cube {n t j : Nat} (hn : n < N) (ht : t < T) (hj : j < m) (f : Nat → Nat → Nat → α) :
    (cube N T m f).get [n, t, j] = f n t j :=
  get_generate (s := [N, T, m]) (i := [n, t, j]) ⟨hn, ht, hj, trivial⟩ _

theorem map_grid (g : α → β) (f : Nat → Nat → α) :
    (grid N m f).map g = grid N m fun n j => g (f n j) := by
  apply eq_grid rfl
  intro n j hn hj
  have hi : (grid N m f).extents.Contains [n, j] := ⟨hn, hj, trivial⟩
  rw [get_map g hi, get_grid hn hj]

theorem zeros_grid : (zeros [N, m] : DenseArray α) = grid N m fun _ _ => 0 := by
  apply eq_grid rfl
  intro n j hn hj
  exact get_full (s := [N, m]) 0 ⟨hn, hj, trivial⟩

end

/-! ## Sums and products -/

section

variable [Scalar α] {f g : Nat → Nat → α} {op : α → α → α} {name : String}

theorem broadcast_grid : (grid N m f).broadcast name op (grid N m g) =
    .ok (grid N m fun n j => op (f n j) (g n j)) := by
  rw [broadcast_ok (Extents.broadcast?_self [N, m])]
  congr 1
  apply eq_grid rfl
  intro n j hn hj
  have hi : Extents.Contains [N, m] [n, j] := ⟨hn, hj, trivial⟩
  rw [get_broadcastWith op _ _ hi]
  have hextents : ∀ f : Nat → Nat → α, (grid N m f).extents = [N, m] := fun _ => rfl
  rw [hextents, hextents, Extents.project_self hi, get_grid hn hj, get_grid hn hj]

theorem add_grid : (grid N m f).add (grid N m g) = .ok (grid N m fun n j => f n j + g n j) :=
  broadcast_grid

theorem sub_grid : (grid N m f).sub (grid N m g) = .ok (grid N m fun n j => f n j - g n j) :=
  broadcast_grid

theorem mul_grid : (grid N m f).mul (grid N m g) = .ok (grid N m fun n j => f n j * g n j) :=
  broadcast_grid

/-- A vector is combined with every row. -/
theorem broadcast_row {a b : DenseArray α} (ha : a.extents = s ++ [m]) (hb : b.extents = [m]) :
    a.broadcast name op b =
      .ok (generate (s ++ [m]) fun i => op (a.get i) (b.get [i.getLastD 0])) := by
  have hjoint : a.extents.broadcast? b.extents = some (s ++ [m]) := by
    rw [ha, hb]
    exact Extents.broadcast?_last s m
  rw [broadcast_ok hjoint]
  congr 1
  apply eq_generate rfl
  intro i (hi : (s ++ [m]).Contains i)
  obtain ⟨l, j, rfl, hl, hj⟩ := Extents.exists_of_contains_concat hi
  rw [get_broadcastWith op a b hi, ha, hb, Extents.project_self hi, Extents.project_last l hj,
    List.getLastD_concat]

theorem add_grid_row {b : DenseArray α} (hb : b.extents = [m]) :
    (grid N m f).add b = .ok (grid N m fun n j => f n j + b.get [j]) := by
  rw [add, broadcast_row (s := [N]) rfl hb]
  congr 1
  apply eq_grid rfl
  intro n j hn hj
  have hi : Extents.Contains [N, m] [n, j] := ⟨hn, hj, trivial⟩
  rw [List.singleton_append, get_generate hi, get_grid hn hj]
  rfl

theorem add_cube_row {f : Nat → Nat → Nat → α} {b : DenseArray α} (hb : b.extents = [m]) :
    (cube N T m f).add b = .ok (cube N T m fun n t j => f n t j + b.get [j]) := by
  rw [add, broadcast_row (s := [N, T]) rfl hb]
  congr 1
  apply eq_cube rfl
  intro n t j hn ht hj
  have hi : Extents.Contains ([N, T] ++ [m]) [n, t, j] := ⟨hn, ht, hj, trivial⟩
  rw [get_generate hi, get_cube hn ht hj]
  rfl

end

section

variable [ExactScalar α] {a b : DenseArray α}

theorem matmul_sum (ha : a.extents = s ++ [k]) (hb : b.extents = [rows, k])
    (h : contractsTo (s ++ [rows]) k = true) : a.matmul b = .ok (generate (s ++ [rows]) fun i =>
      ∑ j ∈ range k, b.get [i.getLastD 0, j] * a.get (i.dropLast ++ [j])) := by
  have hlast : a.extents.getLast? = some k := by rw [ha, List.getLast?_concat]
  have hdrop : a.extents.dropLast = s := by rw [ha, List.dropLast_concat]
  rw [matmul_ok hb hlast (hdrop.symm ▸ h)]
  congr 1
  have hextents : (a.contract b rows k).extents = s ++ [rows] := by
    rw [contract, extents_generate, hdrop]
  apply eq_generate hextents
  intro i hi
  obtain ⟨l, r, rfl, hl, hr⟩ := Extents.exists_of_contains_concat hi
  rw [get_contract ha hl hr, ExactScalar.sumUpTo_eq_sum_range, List.getLastD_concat,
    List.dropLast_concat]
  simp only [mul_comm]

theorem matmul_grid {f : Nat → Nat → α} (hb : b.extents = [rows, k])
    (h : contractsTo [N, rows] k = true) :
    (grid N k f).matmul b = .ok (grid N rows fun n r => ∑ j ∈ range k, b.get [r, j] * f n j) := by
  rw [matmul_sum (s := [N]) rfl hb h]
  congr 1
  apply eq_grid rfl
  intro n r hn hr
  have hi : Extents.Contains ([N] ++ [rows]) [n, r] := ⟨hn, hr, trivial⟩
  rw [get_generate hi]
  apply Finset.sum_congr rfl
  intro j hj
  exact congrArg _ (get_grid hn (Finset.mem_range.mp hj) f)

theorem matmul_cube {f : Nat → Nat → Nat → α} (hb : b.extents = [rows, k])
    (h : contractsTo [N, T, rows] k = true) : (cube N T k f).matmul b =
      .ok (cube N T rows fun n t r => ∑ j ∈ range k, b.get [r, j] * f n t j) := by
  rw [matmul_sum (s := [N, T]) rfl hb h]
  congr 1
  apply eq_cube rfl
  intro n t r hn ht hr
  have hi : Extents.Contains ([N, T] ++ [rows]) [n, t, r] := ⟨hn, ht, hr, trivial⟩
  rw [get_generate hi]
  apply Finset.sum_congr rfl
  intro j hj
  exact congrArg _ (get_cube hn ht (Finset.mem_range.mp hj) f)

end

/-! ## Values elsewhere -/

section

variable [Scalar α] {f : Nat → Nat → α}

theorem arrange_ok {a : DenseArray α} {plan : Extents → Except Error Rearrangement}
    {r : Rearrangement} (h : plan a.extents = .ok r) : a.arrange plan = .ok (a.rearrange r) := by
  unfold arrange
  rw [h]
  rfl

theorem slice_grid {start stop : Nat} (hstart : start ≤ stop) (hstop : stop ≤ m) :
    (grid N m f).slice start stop = .ok (grid N (stop - start) fun n j => f n (start + j)) := by
  have hplan : Rearrangement.slice (grid N m f).extents start stop =
      .ok (.window [N, m] 1 start (stop - start)) := if_pos ⟨hstart, hstop⟩
  rw [slice, arrange_ok hplan]
  congr 1
  apply eq_grid rfl
  intro n j hn hj
  have hi : Extents.Contains [N, stop - start] [n, j] := ⟨hn, hj, trivial⟩
  refine (get_gather hi (grid N m f) _).trans ?_
  have hplace : [n, j].modify 1 (· + start) = [n, start + j] := by
    rw [Nat.add_comm start j]
    rfl
  exact (congrArg (grid N m f).get hplace).trans (get_grid hn (by omega) f)

theorem select_cube {f : Nat → Nat → Nat → α} {t : Nat} (ht : t < T) :
    (cube N T m f).select 1 t = .ok (grid N m fun n j => f n t j) := by
  have hplan : Rearrangement.select (cube N T m f).extents 1 t =
      .ok ⟨[N, m], fun i => i.insertIdx 1 t, .select 1 t⟩ := by
    unfold Rearrangement.select
    exact if_pos ht
  rw [select, arrange_ok hplan]
  congr 1
  apply eq_grid rfl
  intro n j hn hj
  have hi : Extents.Contains [N, m] [n, j] := ⟨hn, hj, trivial⟩
  exact (get_gather hi (cube N T m f) _).trans (get_cube hn ht hj f)

theorem raise_ok {a : DenseArray α} {axis : Nat} (ha : a.extents = s) (haxis : axis ≤ s.length)
    (h : s.addressable = true) : ∃ y, a.raise axis = .ok y := by
  subst ha
  have hone : Extents.addressable (a.extents.insertIdx axis 1) = true := by
    rw [Extents.addressable_insertIdx 1 haxis, Extents.addressable_one_cons, h]
  have hsize : a.extents.size = Extents.size (a.extents.insertIdx axis 1) := by
    rw [Extents.size_insertIdx 1 haxis, Nat.one_mul]
  unfold raise reshape
  rw [if_pos haxis, arrange_ok (if_pos ⟨hone, hsize⟩)]
  exact ⟨_, rfl⟩

/-- Arrays of the same extents are stacked if there is room. -/
theorem stack_ok {parts : List (DenseArray α)} {axis : Nat} (hne : parts ≠ [])
    (hall : ∀ p ∈ parts, p.extents = s) (haxis : axis ≤ s.length)
    (h : Extents.addressable (s.insertIdx axis parts.length) = true) :
    ∃ y, stack parts axis = .ok y := by
  have hs : s.addressable = true := by
    rw [Extents.addressable_insertIdx _ haxis] at h
    exact Extents.addressable_of_cons h
  obtain ⟨raised, hraised⟩ : ∃ raised, List.Forall₂ (fun p y => p.raise axis = .ok y) parts raised :=
    exists_forall₂.mpr fun p hp => raise_ok (hall p hp) haxis hs
  have hall' : ∀ y ∈ raised, y.extents = s.insertIdx axis 1 := by
    intro y hy
    obtain ⟨p, hp, hok⟩ := exists_of_mem_right hraised hy
    exact (get_raise (hall p hp) haxis hok).1
  have hlen := hraised.length_eq
  have hne' : raised ≠ [] := by
    rintro rfl
    exact hne (List.length_eq_zero_iff.mp hlen)
  have hlt : axis < (s.insertIdx axis 1).length := by
    rw [List.length_insertIdx_of_le_length haxis]
    omega
  have hjoined : (s.insertIdx axis 1).set axis (raised.length * (s.insertIdx axis 1).getD axis 0) =
      s.insertIdx axis parts.length := by
    rw [getD_insertIdx 1 haxis, Nat.mul_one, Extents.set_insertIdx 1 _ haxis, hlen]
  obtain ⟨y, hy, -⟩ := (concat_eq hne' hall' hlt).1 (hjoined.symm ▸ h)
  refine ⟨y, ?_⟩
  unfold stack
  rw [mapM_eq_ok_iff.mpr hraised]
  exact hy

/-- Each of the arrays is found again at its place on the new axis. -/
theorem exists_stack {part : Nat → DenseArray α} {axis : Nat} (hT : T ≠ 0)
    (hpart : ∀ t, (part t).extents = s) (haxis : axis ≤ s.length)
    (h : Extents.addressable (s.insertIdx axis T) = true) :
    ∃ y, stack ((List.range T).map part) axis = .ok y ∧ y.extents = s.insertIdx axis T ∧
      ∀ t < T, ∀ i, s.Contains i → y.get (i.insertIdx axis t) = (part t).get i := by
  have hne : (List.range T).map part ≠ [] := by simpa using hT
  have hall : ∀ p ∈ (List.range T).map part, p.extents = s :=
    List.forall_mem_map.mpr fun t _ => hpart t
  obtain ⟨y, hy⟩ := stack_ok hne hall haxis (by simpa using h)
  obtain ⟨hextents, hget⟩ := get_stack hne hall haxis hy
  refine ⟨y, hy, by simpa using hextents, ?_⟩
  intro t ht i hi
  have hfound := hget t i (by simpa using ht) hi
  rwa [List.getElem_map, List.getElem_range] at hfound

theorem stack_grids {f : Nat → Nat → Nat → α} (hT : T ≠ 0)
    (h : Extents.addressable [T, N, m] = true) :
    stack ((List.range T).map fun t => grid N m (f t)) 0 = .ok (cube T N m f) := by
  have hpart : ∀ t, (grid N m (f t)).extents = [N, m] := fun _ => rfl
  obtain ⟨y, hy, hextents, hget⟩ := exists_stack hT hpart (Nat.zero_le 2) h
  rw [hy]
  congr 1
  apply eq_cube hextents
  intro t n j ht hn hj
  exact (hget t ht [n, j] ⟨hn, hj, trivial⟩).trans (get_grid hn hj (f t))

theorem stack_grids_second {f : Nat → Nat → Nat → α} (hT : T ≠ 0)
    (h : Extents.addressable [N, T, m] = true) :
    stack ((List.range T).map fun t => grid N m fun n => f n t) 1 = .ok (cube N T m f) := by
  have hpart : ∀ t, (grid N m fun n => f n t).extents = [N, m] := fun _ => rfl
  obtain ⟨y, hy, hextents, hget⟩ := exists_stack hT hpart (Nat.le_succ 1) h
  rw [hy]
  congr 1
  apply eq_cube hextents
  intro n t j hn ht hj
  exact (hget t ht [n, j] ⟨hn, hj, trivial⟩).trans (get_grid hn hj fun n => f n t)

end

end DenseArray

end NeuralNet
