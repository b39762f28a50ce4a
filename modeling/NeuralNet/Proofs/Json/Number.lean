import NeuralNet.Json.Reader

/-!
# Numbers of a document

* `written?_append`: a number is read in front of what ends it as it is read alone;
* `written?_toString`, `ofWritten?_toDigits`: the digits of a natural are read as that natural, if
  it fits 64 bits.
-/

namespace NeuralNet.Json

variable {c : Char} {cs rest tail text : Input} {w : WrittenNumber} {ds : List Nat} {n : Nat}

/-! ## What follows a number -/

/-- What may stand behind digits. -/
def Stops (rest : Input) : Prop := ∀ c ∈ rest.head?, isDigit c = false

/-- What may stand behind a number. -/
def Ends (rest : Input) : Prop :=
  ∀ c ∈ rest.head?, isDigit c = false ∧ c ≠ '.' ∧ c ≠ 'e' ∧ c ≠ 'E'

theorem stops_nil : Stops [] := by simp [Stops]

theorem ends_nil : Ends [] := by simp [Ends]

theorem Ends.stops (h : Ends rest) : Stops rest := fun c hc => (h c hc).1

theorem digits_append (h : Stops rest) :
    digits (cs ++ rest) = ((digits cs).1, (digits cs).2 ++ rest) := by
  induction cs with
  | nil =>
    cases rest with
    | nil => rfl
    | cons c rest => simp [digits, h c rfl]
  | cons c cs ih =>
    simp only [digits, Prod.mk.injEq] at ih ⊢
    cases hc : isDigit c with
    | true => simpa [hc] using ih
    | false => simp [hc]

theorem wholePart?_append (h : Ends rest) (hw : wholePart? cs = some (ds, tail)) :
    wholePart? (cs ++ rest) = some (ds, tail ++ rest) := by
  unfold wholePart? at hw ⊢
  rw [digits_append h.stops]
  generalize digits cs = r at hw ⊢
  obtain ⟨_ | ⟨_ | d, _ | ⟨d', ds'⟩⟩, tail'⟩ := r
  · cases hw
  · cases hw
    rfl
  · cases hw
  · cases hw
    rfl
  · cases hw
    rfl

theorem fraction?_append (h : Ends rest) (hf : fraction? cs = some (ds, tail)) :
    fraction? (cs ++ rest) = some (ds, tail ++ rest) := by
  unfold fraction? at hf
  split at hf
  · rename_i cs
    rw [List.cons_append, fraction?, digits_append h.stops]
    generalize digits cs = r at hf ⊢
    obtain ⟨_ | ⟨d, ds'⟩, tail'⟩ := r
    · cases hf
    · cases hf
      rfl
  · rename_i hpoint
    cases hf
    unfold fraction?
    split
    · rename_i heq
      cases cs with
      | nil => exact absurd rfl (h '.' (by simpa using congrArg List.head? heq)).2.1
      | cons c cs => exact absurd (List.cons.inj heq).1 (fun hc => hpoint cs (hc ▸ rfl))
    · rfl

theorem signedDigits?_append {sign e : Int} (h : Ends rest)
    (hs : signedDigits? sign cs = some (e, tail)) :
    signedDigits? sign (cs ++ rest) = some (e, tail ++ rest) := by
  unfold signedDigits? at hs ⊢
  rw [digits_append h.stops]
  generalize digits cs = r at hs ⊢
  obtain ⟨_ | ⟨d, ds'⟩, tail'⟩ := r
  · cases hs
  · cases hs
    rfl

/-- The power of ten behind its letter. -/
def power? : Input → Option (Int × Input)
  | '+' :: cs => signedDigits? 1 cs
  | '-' :: cs => signedDigits? (-1) cs
  | cs => signedDigits? 1 cs

theorem exponent?_cons (c : Char) (cs : Input) :
    exponent? (c :: cs) =
      if c = 'e' ∨ c = 'E' then (power? cs).map fun (e, rest) => (some e, rest)
      else some (none, c :: cs) := rfl

theorem power?_append {e : Int} (h : Ends rest) (hp : power? cs = some (e, tail)) :
    power? (cs ++ rest) = some (e, tail ++ rest) := by
  unfold power? at hp
  split at hp
  · exact signedDigits?_append h hp
  · exact signedDigits?_append h hp
  · rename_i hplus hminus
    have hcs := signedDigits?_append h hp
    cases cs with
    | nil => cases hp
    | cons c cs =>
      unfold power?
      split
      · rename_i heq
        exact absurd (List.cons.inj heq).1 fun hc => hplus cs (hc ▸ rfl)
      · rename_i heq
        exact absurd (List.cons.inj heq).1 fun hc => hminus cs (hc ▸ rfl)
      · exact hcs

theorem exponent?_append {e : Option Int} (h : Ends rest) (he : exponent? cs = some (e, tail)) :
    exponent? (cs ++ rest) = some (e, tail ++ rest) := by
  cases cs with
  | nil =>
    cases he
    cases rest with
    | nil => rfl
    | cons c rest => exact if_neg (not_or.mpr (h c rfl).2.2)
  | cons c cs =>
    rw [exponent?_cons] at he
    rw [List.cons_append, exponent?_cons]
    by_cases hc : c = 'e' ∨ c = 'E'
    · rw [if_pos hc] at he ⊢
      obtain ⟨⟨e, tail'⟩, hp, heq⟩ := Option.map_eq_some_iff.mp he
      cases heq
      rw [power?_append h hp]
      rfl
    · rw [if_neg hc] at he ⊢
      cases he
      rfl

theorem unsigned?_append {negative : Bool} (h : Ends rest)
    (hu : unsigned? negative cs = some (w, tail)) :
    unsigned? negative (cs ++ rest) = some (w, tail ++ rest) := by
  obtain ⟨⟨whole, cs₁⟩, hw, hu⟩ := Option.bind_eq_some_iff.mp hu
  obtain ⟨⟨fraction, cs₂⟩, hf, hu⟩ := Option.bind_eq_some_iff.mp hu
  obtain ⟨⟨exponent, cs₃⟩, he, hu⟩ := Option.bind_eq_some_iff.mp hu
  cases hu
  simp only [unsigned?, wholePart?_append h hw, fraction?_append h hf, exponent?_append h he,
    Option.bind_eq_bind, Option.bind_some]
  rfl

/-- What follows a number makes no difference to how it is read, unless it goes on with it. -/
theorem written?_append (h : Ends rest) (hw : written? cs = some (w, tail)) :
    written? (cs ++ rest) = some (w, tail ++ rest) := by
  unfold written? at hw
  split at hw
  · exact unsigned?_append h hw
  · rename_i hminus
    have hcs := unsigned?_append h hw
    cases cs with
    | nil => cases hw
    | cons c cs =>
      unfold written?
      split
      · rename_i heq
        exact absurd (List.cons.inj heq).1 fun hc => hminus cs (hc ▸ rfl)
      · exact hcs

theorem exists_digit_of_unsigned? {negative : Bool} (hu : unsigned? negative cs = some (w, tail)) :
    ∃ c rest, cs = c :: rest ∧ isDigit c = true := by
  obtain ⟨⟨whole, cs₁⟩, hw, -⟩ := Option.bind_eq_some_iff.mp hu
  cases cs with
  | nil => cases hw
  | cons c cs =>
    refine ⟨c, cs, rfl, ?_⟩
    cases hc : isDigit c with
    | true => rfl
    | false => simp [wholePart?, digits, hc] at hw

/-- A number starts with a digit or with its sign. -/
theorem exists_head_of_written? (hw : written? cs = some (w, tail)) :
    ∃ c rest, cs = c :: rest ∧ (c = '-' ∨ isDigit c = true) := by
  unfold written? at hw
  split at hw
  · exact ⟨'-', _, rfl, .inl rfl⟩
  · obtain ⟨c, rest, rfl, hc⟩ := exists_digit_of_unsigned? hw
    exact ⟨c, rest, rfl, .inr hc⟩

/-! ## Digits -/

/-- The digits of a text as numbers. -/
def digitValues (text : Input) : List Nat := text.map fun c => c.toNat - 48

theorem length_digitValues (text : Input) : (digitValues text).length = text.length :=
  List.length_map _

theorem digits_of_forall (h : ∀ c ∈ text, isDigit c = true) :
    digits text = (digitValues text, []) := by
  induction text with
  | nil => rfl
  | cons c text ih =>
    have hrest := ih fun c hc => h c (List.mem_cons_of_mem _ hc)
    simp only [digits, digitValues, Prod.mk.injEq] at hrest ⊢
    simp [h c List.mem_cons_self, hrest]

theorem le_ofDigitChars (text : Input) (n : Nat) : n ≤ Nat.ofDigitChars 10 text n := by
  induction text generalizing n with
  | nil => exact Nat.le_refl n
  | cons c text ih =>
    rw [Nat.ofDigitChars_cons]
    exact Nat.le_trans (by omega) (ih _)

/-- Digits whose number fits are all appended. -/
theorem append_digitValues (h : Nat.ofDigitChars 10 text n < WrittenNumber.wordLimit)
    (count : Nat) :
    WrittenNumber.append (digitValues text) n count =
      (Nat.ofDigitChars 10 text n, count + text.length) := by
  induction text generalizing n count with
  | nil => rfl
  | cons c text ih =>
    rw [Nat.ofDigitChars_cons] at h ⊢
    have hlt := Nat.lt_of_le_of_lt (le_ofDigitChars text _) h
    change WrittenNumber.append ((c.toNat - '0'.toNat) :: digitValues text) n count = _
    rw [WrittenNumber.append, if_pos hlt, ih h, List.length_cons, Nat.add_assoc,
      Nat.add_comm 1]

theorem isDigit_of_mem_toDigits (h : c ∈ Nat.toDigits 10 n) : isDigit c = true := by
  have hdigit := Nat.isDigit_of_mem_toDigits (by decide) (by decide) h
  simpa [isDigit, Char.isDigit, Char.le_def] using hdigit

/-- The digits of a natural start with a zero only if it is 0. -/
theorem exists_toDigits (h : 0 < n) :
    ∃ c cs, Nat.toDigits 10 n = c :: cs ∧ c.toNat - 48 ≠ 0 := by
  induction n using Nat.strongRecOn with
  | ind n ih =>
    rw [Nat.toDigits_eq_if (by decide)]
    split
    · rename_i hlt
      have hdigit : ∀ d < 10, 0 < d → (Nat.digitChar d).toNat - 48 ≠ 0 := by decide
      exact ⟨_, [], rfl, hdigit n hlt h⟩
    · obtain ⟨c, cs, hcs, hc⟩ := ih (n / 10) (by omega) (by omega)
      exact ⟨c, cs ++ [(n % 10).digitChar], by rw [hcs, List.cons_append], hc⟩

/-- The digits of a whole part: the first one is a zero only if it is alone. -/
structure Leads (text : Input) : Prop where
  digits : ∀ c ∈ text, isDigit c = true
  head : ∃ c cs, text = c :: cs ∧ (c.toNat - 48 ≠ 0 ∨ cs = [])

theorem leads_toDigits (n : Nat) : Leads (Nat.toDigits 10 n) := by
  refine ⟨fun c => isDigit_of_mem_toDigits, ?_⟩
  rcases Nat.eq_zero_or_pos n with rfl | hn
  · exact ⟨'0', [], rfl, .inr rfl⟩
  · obtain ⟨c, cs, hcs, hc⟩ := exists_toDigits hn
    exact ⟨c, cs, hcs, .inl hc⟩

theorem wholePart?_of_leads (h : Leads text) (hrest : Stops rest) :
    wholePart? (text ++ rest) = some (digitValues text, rest) := by
  unfold wholePart?
  rw [digits_append hrest, digits_of_forall h.digits]
  obtain ⟨c, cs, rfl, hc | rfl⟩ := h.head
  · rw [digitValues, List.map_cons]
    generalize c.toNat - 48 = d at hc ⊢
    obtain ⟨d, rfl⟩ := Nat.exists_eq_add_one_of_ne_zero hc
    rfl
  · rw [digitValues, List.map_singleton]
    cases c.toNat - 48 <;> rfl

theorem written?_toString (n : Nat) :
    written? (toString n).toList =
      some (⟨false, digitValues (Nat.toDigits 10 n), [], none⟩, []) := by
  have htext : (toString n).toList = Nat.toDigits 10 n := Nat.toList_repr
  rw [htext]
  unfold written?
  split
  · rename_i heq
    have hminus := isDigit_of_mem_toDigits (n := n) (heq ▸ List.mem_cons_self)
    exact absurd hminus (by decide)
  · have hwhole := wholePart?_of_leads (leads_toDigits n) stops_nil
    rw [List.append_nil] at hwhole
    simp [unsigned?, hwhole, fraction?, exponent?]

theorem ofWritten?_toDigits (h : n < WrittenNumber.wordLimit) :
    Numeral.ofWritten? ⟨false, digitValues (Nat.toDigits 10 n), [], none⟩ = some (.whole n) := by
  have hvalue : Nat.ofDigitChars 10 (Nat.toDigits 10 n) 0 = n :=
    Nat.ofDigitChars_toDigits (by decide) (by decide)
  have happ := append_digitValues (hvalue.symm ▸ h) 0
  rw [hvalue, Nat.zero_add] at happ
  simp [Numeral.ofWritten?, Numeral.wholeOf?, WrittenNumber.isWhole, WrittenNumber.wholePart?, happ,
    length_digitValues]

end NeuralNet.Json
