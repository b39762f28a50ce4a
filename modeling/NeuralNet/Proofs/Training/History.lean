import NeuralNet.Proofs.Number.Order
import NeuralNet.Training.History

/-!
# The best epoch

Epochs are compared by the total order of words, in which the NaNs with a sign come before all
numbers and those without one behind them.

* `exists_best`: the best epoch is one that no other comes before;
* `best_of_number`: it has the least loss, unless some loss is a NaN with a sign.
-/

namespace NeuralNet

namespace Single

variable {a b : Single}

theorem totalKey_le_infinity (h : a.isNaN = false) : a.totalKey ≤ infinity.totalKey := by
  have hm := UInt32.le_iff_toNat_le.mp (UInt32.not_lt.mp (of_decide_eq_false h))
  have htop : infinity.totalKey = (0x7f800000 : UInt32).toNat := rfl
  rw [htop, totalKey]
  split <;> omega

/-- Only NaNs with a sign come before minus infinity. -/
theorem totalKey_lt_negInfinity_iff :
    a.totalKey < negInfinity.totalKey ↔ a.isNaN = true ∧ a.isNegative = true := by
  have hbottom : negInfinity.totalKey = -((0x7f800000 : UInt32).toNat : Int) - 1 := rfl
  rw [hbottom, totalKey, isNaN, decide_eq_true_iff, UInt32.lt_iff_toNat_lt]
  split <;> rename_i hs <;> simp only [hs, and_true, Bool.false_eq_true, and_false, iff_false] <;>
    omega

theorem key_le_of_totalKey_le (h : a.totalKey ≤ b.totalKey) : a.key ≤ b.key := by
  unfold totalKey at h
  unfold key
  split_ifs at h ⊢ <;> omega

/-- The total order agrees with the order of numbers. -/
theorem datum_le_of_totalKey_le (ha : a.isNaN = false) (hb : b.isNaN = false)
    (h : a.totalKey ≤ b.totalKey) : a.datum.Le b.datum :=
  datum_le (le_iff.mpr ⟨ha, hb, key_le_of_totalKey_le h⟩)

end Single

namespace History

variable {h : History}

/-- An element that no other comes before, among those that were seen so far. -/
theorem foldl_least (rank : Epoch → Int) (first : Epoch) (rest : List Epoch) :
    ∃ b ∈ first :: rest,
      rest.foldl (fun best e => if rank e < rank best then e else best) first = b ∧
        ∀ e ∈ first :: rest, rank b ≤ rank e := by
  induction rest generalizing first with
  | nil => exact ⟨first, List.mem_singleton_self _, rfl, by simp⟩
  | cons next rest ih =>
    obtain ⟨b, hb, heq, hleast⟩ := ih (if rank next < rank first then next else first)
    refine ⟨b, ?_, heq, ?_⟩
    · split at hb <;> simp only [List.mem_cons] at hb ⊢ <;> tauto
    · have hstep := hleast _ List.mem_cons_self
      intro e he
      rcases List.mem_cons.mp he with rfl | he
      · split at hstep <;> omega
      rcases List.mem_cons.mp he with rfl | he
      · split at hstep <;> omega
      · exact hleast e (List.mem_cons_of_mem _ he)

/-- The best epoch is one that no other comes before; there is one as soon as there is an epoch. -/
theorem exists_best {e : Epoch} (he : e ∈ h.epochs) :
    ∃ b ∈ h.epochs, h.best = some b ∧
      ∀ e ∈ h.epochs, b.judgedLoss.totalKey ≤ e.judgedLoss.totalKey := by
  obtain ⟨epochs⟩ := h
  cases epochs with
  | nil => cases he
  | cons first rest =>
    obtain ⟨b, hb, heq, hleast⟩ := foldl_least (·.judgedLoss.totalKey) first rest
    exact ⟨b, hb, congrArg some heq, hleast⟩

/-- A history with a loss that is a number has a best epoch. Its loss is a NaN just if some loss is
a NaN with a sign; otherwise it is a number that no other loss is below. -/
theorem best_of_number (number : ∃ e ∈ h.epochs, e.judgedLoss.isNaN = false) :
    ∃ b ∈ h.epochs, h.best = some b ∧
      (b.judgedLoss.isNaN = true ↔
        ∃ e ∈ h.epochs, e.judgedLoss.isNaN = true ∧ e.judgedLoss.isNegative = true) ∧
      (b.judgedLoss.isNaN = false → ∀ e ∈ h.epochs, e.judgedLoss.isNaN = false →
        b.judgedLoss.datum.Le e.judgedLoss.datum) := by
  obtain ⟨e, he, hn⟩ := number
  obtain ⟨b, hb, hbest, hleast⟩ := exists_best he
  refine ⟨b, hb, hbest, ⟨fun hnan => ?_, fun ⟨d, hd, hsigned⟩ => ?_⟩, fun hb' e he he' => ?_⟩
  · -- a NaN without a sign would stand behind the number
    refine ⟨b, hb, hnan, ?_⟩
    have hle := (hleast e he).trans (Single.totalKey_le_infinity hn)
    by_contra hpos
    have hm := UInt32.lt_iff_toNat_lt.mp (of_decide_eq_true hnan)
    have htop : Single.infinity.totalKey = (0x7f800000 : UInt32).toNat := rfl
    rw [htop, Single.totalKey, if_neg hpos] at hle
    omega
  · exact (Single.totalKey_lt_negInfinity_iff.mp
      ((hleast d hd).trans_lt (Single.totalKey_lt_negInfinity_iff.mpr hsigned))).1
  · exact Single.datum_le_of_totalKey_le hb' he' (hleast e he)

/-- An epoch that was validated and diverged in training, between one that was not validated and
one whose validation diverged without a sign. -/
def mixed : History :=
  ⟨[⟨0, .one, none, none, none⟩, ⟨1, .invalid, none, some ⟨0x3f000000⟩, none⟩,
    ⟨2, .zero, none, some .nan, none⟩]⟩

theorem best_of_number_mixed :
    (∃ e ∈ mixed.epochs, e.judgedLoss.isNaN = false) ∧
      ∃ b ∈ mixed.epochs, mixed.best = some b ∧
        (b.judgedLoss.isNaN = true ↔
          ∃ e ∈ mixed.epochs, e.judgedLoss.isNaN = true ∧ e.judgedLoss.isNegative = true) ∧
        (b.judgedLoss.isNaN = false → ∀ e ∈ mixed.epochs, e.judgedLoss.isNaN = false →
          b.judgedLoss.datum.Le e.judgedLoss.datum) :=
  ⟨by decide, best_of_number (by decide)⟩

/-- The loss of the first epoch is what an operation without a value gives. -/
def diverged : History := ⟨[⟨0, .invalid, none, none, none⟩, ⟨1, .one, none, none, none⟩]⟩

/-- An epoch that diverged is called the best, before one with a loss of 1. -/
theorem best_of_diverged :
    (∃ e ∈ diverged.epochs, e.judgedLoss.isNaN = false) ∧
      ∃ b, diverged.best = some b ∧ b.judgedLoss.isNaN = true :=
  ⟨by decide, _, rfl, by decide⟩

end History

end NeuralNet
