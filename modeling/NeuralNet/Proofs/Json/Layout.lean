import NeuralNet.Number.Decimal
import NeuralNet.Proofs.Json.Number
import NeuralNet.Proofs.Number.Finite

/-!
# The layout of numbers

The text of a finite number is a number of a document, in whichever notation it stands: the digits
of the shortest decimal do not start with a zero, and there is one on each side of a point.

* `shortest_ne_zero`: the shortest decimal of what is not 0 is not 0;
* `exists_written?_interchangeText`: the reader takes all of the text.
-/

namespace NeuralNet

namespace Decimal

variable {i : Interval} {tie : Tie} {fuel : Nat} {exponent : Int} {d : Decimal}

theorem onGrid?_ne_zero (h : i.onGrid? tie exponent = some d) : d.digits ≠ 0 := by
  simp only [Interval.onGrid?] at h
  split at h
  · rename_i hbelow _
    split at h <;> cases h
    · exact Nat.succ_ne_zero _
    · simpa using (Bool.and_eq_true_iff.mp hbelow).2
  · rename_i hbelow _
    cases h
    simpa using (Bool.and_eq_true_iff.mp hbelow).2
  · cases h
    exact Nat.succ_ne_zero _
  · cases h

theorem search_ne_zero (hi : i.centre ≠ 0) : (i.search tie fuel exponent).digits ≠ 0 := by
  induction fuel generalizing exponent with
  | zero => exact hi
  | succ fuel ih =>
    rw [Interval.search]
    split
    · rename_i d hd
      exact onGrid?_ne_zero hd
    · exact ih

theorem trim_ne_zero (h : d.digits ≠ 0) : (trim fuel d).digits ≠ 0 := by
  induction fuel generalizing d with
  | zero => exact h
  | succ fuel ih =>
    rw [trim]
    split
    · exact ih (by dsimp only; omega)
    · exact h

/-- The shortest decimal of what is not 0 is not 0. -/
theorem shortest_ne_zero (f : BinaryFormat) (tie : Tie) {significand : Nat} (exponent : Int)
    (h : significand ≠ 0) : (shortest f tie significand exponent).digits ≠ 0 := by
  rw [shortest, if_neg h]
  exact trim_ne_zero (search_ne_zero (Nat.mul_ne_zero (by decide) h))

end Decimal

namespace Json

variable {rest text whole fraction power : Input} {n : Nat} {point : Int}

/-! ## The parts of a number -/

/-- Digits that are not left out. -/
def IsDigits (text : Input) : Prop := text ≠ [] ∧ ∀ c ∈ text, isDigit c = true

theorem exists_digits (h : IsDigits text) (hrest : Stops rest) :
    ∃ d ds, digits (text ++ rest) = (d :: ds, rest) := by
  obtain ⟨hne, hall⟩ := h
  obtain ⟨c, cs, rfl⟩ := List.exists_cons_of_ne_nil hne
  exact ⟨_, _, by rw [digits_append hrest, digits_of_forall hall]; rfl⟩

/-- A point with digits behind it, or nothing. -/
def IsFraction (text : Input) : Prop := text = [] ∨ ∃ ds, text = '.' :: ds ∧ IsDigits ds

/-- The letter of an exponent with a sign and digits behind it, or nothing. -/
def IsPower (text : Input) : Prop :=
  text = [] ∨ ∃ sign ds, text = 'e' :: (sign ++ ds) ∧ sign ∈ [[], ['+'], ['-']] ∧ IsDigits ds

theorem exists_signedDigits? (h : IsDigits text) (sign : Int) :
    ∃ e, signedDigits? sign text = some (e, []) := by
  obtain ⟨d, ds, hds⟩ := exists_digits h stops_nil
  rw [List.append_nil] at hds
  exact ⟨_, by rw [signedDigits?, hds]⟩

theorem IsPower.exists_exponent? (h : IsPower power) : ∃ e, exponent? power = some (e, []) := by
  obtain rfl | ⟨sign, ds, rfl, hsign, hds⟩ := h
  · exact ⟨none, rfl⟩
  · have hpower : ∃ e, power? (sign ++ ds) = some (e, []) := by
      simp only [List.mem_cons, List.not_mem_nil, or_false] at hsign
      obtain rfl | rfl | rfl := hsign
      · rw [List.nil_append, power?.eq_def]
        split
        · exact absurd (hds.2 '+' List.mem_cons_self) (by decide)
        · exact absurd (hds.2 '-' List.mem_cons_self) (by decide)
        · exact exists_signedDigits? hds 1
      · exact exists_signedDigits? hds 1
      · exact exists_signedDigits? hds (-1)
    obtain ⟨e, he⟩ := hpower
    exact ⟨some e, by rw [exponent?_cons, if_pos (.inl rfl), he]; rfl⟩

theorem IsPower.stops (h : IsPower power) : Stops power := by
  obtain rfl | ⟨sign, ds, rfl, -⟩ := h
  · exact stops_nil
  · rintro c ⟨⟩
    decide

theorem IsFraction.exists_fraction? (hf : IsFraction fraction) (hp : IsPower power) :
    ∃ ds, fraction? (fraction ++ power) = some (ds, power) := by
  obtain rfl | ⟨ds, rfl, hds⟩ := hf
  · obtain rfl | ⟨sign, ds, rfl, -⟩ := hp <;> exact ⟨[], rfl⟩
  · obtain ⟨d, ds', hds'⟩ := exists_digits hds hp.stops
    exact ⟨d :: ds', by rw [List.cons_append, fraction?, hds']⟩

theorem IsFraction.stops (hf : IsFraction fraction) (hp : IsPower power) :
    Stops (fraction ++ power) := by
  obtain rfl | ⟨ds, rfl, -⟩ := hf
  · exact hp.stops
  · rintro c ⟨⟩
    decide

theorem exists_unsigned? (hw : Leads whole) (hf : IsFraction fraction) (hp : IsPower power)
    (negative : Bool) : ∃ w, unsigned? negative (whole ++ (fraction ++ power)) = some (w, []) := by
  obtain ⟨ds, hds⟩ := hf.exists_fraction? hp
  obtain ⟨e, he⟩ := hp.exists_exponent?
  refine ⟨⟨negative, digitValues whole, ds, e⟩, ?_⟩
  simp only [unsigned?, wholePart?_of_leads hw (hf.stops hp), hds, he, Option.bind_eq_bind,
    Option.bind_some]
  rfl

/-- A text that is taken as a number, with a sign in front or without. -/
def IsUnsigned (text : Input) : Prop :=
  ∃ whole fraction power, text = whole ++ (fraction ++ power) ∧ Leads whole ∧ IsFraction fraction ∧
    IsPower power

theorem IsUnsigned.exists_written? (h : IsUnsigned text) :
    (∃ w, written? text = some (w, [])) ∧ ∃ w, written? ('-' :: text) = some (w, []) := by
  obtain ⟨whole, fraction, power, rfl, hw, hf, hp⟩ := h
  refine ⟨?_, exists_unsigned? hw hf hp true⟩
  unfold written?
  split
  · rename_i heq
    obtain ⟨c, cs, rfl, -⟩ := hw.head
    obtain rfl := (List.cons.inj heq).1
    exact absurd (hw.digits '-' List.mem_cons_self) (by decide)
  · exact exists_unsigned? hw hf hp false

/-! ## Layouts -/

theorem isDigits_toDigits (n : Nat) : IsDigits (Nat.toDigits 10 n) := by
  obtain ⟨c, cs, hcs, -⟩ := (leads_toDigits n).head
  exact ⟨by simp [hcs], (leads_toDigits n).digits⟩

theorem isDigit_of_mem_zeros {c : Char} (h : c ∈ (Decimal.zeros n).toList) : isDigit c = true := by
  rw [Decimal.zeros, String.toList_ofList] at h
  obtain rfl := List.eq_of_mem_replicate h
  decide

theorem isUnsigned_positionalText (hn : 0 < n) (point : Int) :
    IsUnsigned (Decimal.positionalText true (toString n) point).toList := by
  have htext : (toString n).toList = Nat.toDigits 10 n := Nat.toList_repr
  have hlen : (toString n).length = (Nat.toDigits 10 n).length := by
    rw [← htext, String.length_toList]
  have hdigits : ∀ c ∈ Nat.toDigits 10 n, isDigit c = true := fun c => isDigit_of_mem_toDigits
  obtain ⟨c, cs, hcs, hc⟩ := exists_toDigits hn
  simp only [Decimal.positionalText]
  split
  · -- all digits behind the point
    refine ⟨['0'], '.' :: ((Decimal.zeros (-point).toNat).toList ++ Nat.toDigits 10 n), [], ?_,
      leads_toDigits 0, .inr ⟨_, rfl, ?_, ?_⟩, .inl rfl⟩
    · simp
    · simp [hcs]
    · exact List.forall_mem_append.mpr ⟨fun c => isDigit_of_mem_zeros, hdigits⟩
  split
  · -- the point among the digits
    rename_i hpoint hlt
    obtain ⟨k, rfl⟩ : ∃ k : Nat, point = k + 1 := ⟨(point - 1).toNat, by omega⟩
    refine ⟨(Nat.toDigits 10 n).take (k + 1), '.' :: (Nat.toDigits 10 n).drop (k + 1), [], ?_,
      ⟨fun c hc => hdigits c (List.mem_of_mem_take hc), c, cs.take k, ?_, .inl hc⟩,
      .inr ⟨_, rfl, ?_, fun c hc => hdigits c (List.mem_of_mem_drop hc)⟩, .inl rfl⟩
    · have hk : ((k : Int) + 1).toNat = k + 1 := rfl
      simp [hk]
    · rw [hcs, List.take_succ_cons]
    · rw [ne_eq, List.drop_eq_nil_iff]
      omega
  · -- zeros up to the point
    refine ⟨Nat.toDigits 10 n ++ (Decimal.zeros (point.toNat - (toString n).length)).toList,
      ['.', '0'], [], ?_, ⟨?_, c, cs ++ _, by rw [hcs, List.cons_append], .inl hc⟩,
      .inr ⟨_, rfl, isDigits_toDigits 0⟩, .inl rfl⟩
    · simp
    · exact List.forall_mem_append.mpr ⟨hdigits, fun c => isDigit_of_mem_zeros⟩

/-- A power of ten has its sign and then digits. -/
theorem isPower_exponentText (point : Int) :
    IsPower ("e" ++ (if true && 0 < point then "+" else "") ++ toString (point - 1)).toList := by
  right
  rcases Int.lt_or_le 0 point with hpoint | hpoint
  · obtain ⟨k, rfl⟩ : ∃ k : Nat, point = k + 1 := ⟨(point - 1).toNat, by omega⟩
    refine ⟨['+'], Nat.toDigits 10 k, ?_, by decide, isDigits_toDigits k⟩
    have hexponent : toString ((k : Int) + 1 - 1) = toString k := by
      rw [Int.add_sub_cancel]
      rfl
    rw [hexponent, if_pos (by simp)]
    simp
  · obtain ⟨k, rfl⟩ : ∃ k : Nat, point = -k := ⟨(-point).toNat, by omega⟩
    refine ⟨['-'], Nat.toDigits 10 (k + 1), ?_, by decide, isDigits_toDigits (k + 1)⟩
    have hexponent : toString (-(k : Int) - 1) = "-" ++ toString (k + 1) := by
      have hnegative : -(k : Int) - 1 = .negSucc k := by omega
      rw [hnegative]
      rfl
    rw [hexponent, if_neg (by simp)]
    simp

theorem isUnsigned_scientificText (n : Nat) (point : Int) :
    IsUnsigned (Decimal.scientificText true (toString n) point).toList := by
  obtain ⟨c, cs, hcs, -⟩ := (leads_toDigits n).head
  obtain ⟨hc, hall⟩ := List.forall_mem_cons.mp (hcs ▸ (leads_toDigits n).digits)
  refine ⟨[c], if cs.isEmpty then [] else '.' :: cs, _, ?_,
    ⟨by simpa using hc, c, [], rfl, .inr rfl⟩, ?_, isPower_exponentText point⟩
  · cases cs <;> simp [Decimal.scientificText, hcs]
  · cases cs with
    | nil => exact .inl rfl
    | cons d ds => exact .inr ⟨d :: ds, rfl, List.cons_ne_nil _ _, hall⟩

theorem isUnsigned_text {significand : Nat} (h : significand ≠ 0) (exponent : Int) :
    IsUnsigned
      (Decimal.text Decimal.interchange .single (.finite false significand exponent)).toList := by
  have hpos := Nat.pos_of_ne_zero (Decimal.shortest_ne_zero .single .toEven exponent h)
  simp only [Decimal.text, if_neg h]
  rw [if_neg Bool.false_ne_true, String.empty_append, String.empty_append]
  split
  · exact isUnsigned_positionalText hpos _
  · exact isUnsigned_scientificText _ _

/-- The text of a finite number is taken as a number, to its end. -/
theorem exists_written?_interchangeText {a : Single} (h : a.isFinite = true) :
    ∃ w, written? a.interchangeText.toList = some (w, []) := by
  obtain ⟨s, significand, exponent, hdatum⟩ := Single.exists_datum_of_isFinite h
  rcases Nat.eq_zero_or_pos significand with rfl | hpos
  · have htext : a.interchangeText = if s then "-0.0" else "0.0" := by
      rw [Single.interchangeText, hdatum, Decimal.text]
      cases s <;> rfl
    rw [htext]
    cases s <;> exact ⟨_, rfl⟩
  · obtain ⟨hplus, hminus⟩ := (isUnsigned_text hpos.ne' exponent).exists_written?
    cases s with
    | false => simpa [Single.interchangeText, hdatum] using hplus
    | true =>
      have htext : Decimal.text Decimal.interchange .single (.finite true significand exponent) =
          "-" ++ Decimal.text Decimal.interchange .single (.finite false significand exponent) := by
        simp only [Decimal.text, if_neg hpos.ne']
        split <;> simp
      simpa [Single.interchangeText, hdatum, htext] using hminus

end Json

end NeuralNet
