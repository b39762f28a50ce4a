import NeuralNet.Random.Distribution

/-!
# Random orders

A list is shuffled by exchanging every entry, from the last to the second, with one that is drawn
and does not come after it.

* `Exchanges`: what such exchanges make of a list, whatever is drawn;
* `shuffleFrom_exchanges`: that is what shuffling does;
* `perm_shuffled`: nothing gets lost or doubled.
-/

namespace NeuralNet.Draw

variable {α : Type}

/-- What holds of everything that a draw gives holds of what it gives in the end. -/
theorem untilSome_spec {P : α → Prop} {draw : Draw (Option α)} {otherwise : α}
    (hdraw : ∀ s a, (draw.run s).1 = some a → P a) (hotherwise : P otherwise) (attempts : Nat)
    (s : RandomSource) : P ((untilSome draw otherwise attempts).run s).1 := by
  induction attempts generalizing s with
  | zero => exact hotherwise
  | succ attempts ih =>
    rw [untilSome, StateT.run_bind]
    have hfirst := hdraw s
    generalize draw.run s = drawn at hfirst
    obtain ⟨found, s'⟩ := drawn
    cases found with
    | some a => exact hfirst a rfl
    | none => exact ih s'

theorem below_lt {bound : Nat} (h : 0 < bound) (s : RandomSource) :
    ((below bound).run s).1 < bound := by
  have hr : bound.toUInt32.toNat ≤ bound := Nat.mod_le bound _
  refine untilSome_spec (P := fun j => j < bound) (fun s j hj => ?_) h attempts s
  have hword := (word.run s).1.toNat_lt
  rw [StateT.run_bind] at hj
  generalize word.run s = drawn at hj hword
  change ((if drawn.1.toNat * bound.toUInt32.toNat % 0x100000000 ≤ _
    then (pure (some ((drawn.1.toNat * bound.toUInt32.toNat) >>> 32)) : Draw (Option Nat))
    else pure none).run drawn.2).1 = some j at hj
  split at hj
  · have hscaled : (drawn.1.toNat * bound.toUInt32.toNat) >>> 32 = j := Option.some.inj hj
    rw [← hscaled, Nat.shiftRight_eq_div_pow]
    refine Nat.div_lt_of_lt_mul ?_
    calc drawn.1.toNat * bound.toUInt32.toNat
        ≤ drawn.1.toNat * bound := Nat.mul_le_mul_left _ hr
      _ < 2 ^ 32 * bound := Nat.mul_lt_mul_of_pos_right hword h
  · cases hj

/-- Every entry from position `last` down is exchanged with one that does not come after it, until
only the first is left. -/
inductive Exchanges : (last : Nat) → (order order' : Array Nat) → Prop where
  | done (order : Array Nat) : Exchanges 0 order order
  | next {last j : Nat} {order order' : Array Nat} (hj : j ≤ last + 1)
    (hrest : Exchanges last (exchange order (last + 1) j) order') :
    Exchanges (last + 1) order order'

theorem shuffleFrom_exchanges (last : Nat) (order : Array Nat) (s : RandomSource) :
    Exchanges last order ((shuffleFrom last order).run s).1 := by
  induction last generalizing order s with
  | zero => exact .done order
  | succ last ih =>
    have hj := below_lt (Nat.succ_pos (last + 1)) s
    rw [shuffleFrom, StateT.run_bind]
    generalize (below (last + 1 + 1)).run s = drawn at hj
    exact .next (Nat.le_of_lt_succ hj) (ih _ _)

theorem exchange_perm (order : Array Nat) (i j : Nat) : (exchange order i j).Perm order := by
  unfold exchange Array.swapIfInBounds
  split
  · split
    · exact Array.swap_perm _ _
    · exact .refl order
  · exact .refl order

theorem Exchanges.perm {last : Nat} {order order' : Array Nat} (h : Exchanges last order order') :
    order'.Perm order := by
  induction h with
  | done order => exact .refl order
  | next _ _ ih => exact ih.trans (exchange_perm _ _ _)

theorem perm_shuffled (count : Nat) (s : RandomSource) :
    ((shuffled count).run s).1.toList.Perm (List.range count) := by
  have h := (shuffleFrom_exchanges (count - 1) (Array.range count) s).perm
  rw [Array.perm_iff_toList_perm, Array.toList_range] at h
  exact h

end NeuralNet.Draw
