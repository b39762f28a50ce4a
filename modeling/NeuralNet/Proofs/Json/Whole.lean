import NeuralNet.Json.Form
import NeuralNet.Json.Reader
import NeuralNet.Proofs.Checks

/-!
# Whole numbers of a document

Whatever holds of all numbers that can be written holds of all numbers in a document that is read:
the reader makes no number of its own. Whole ones fit 64 bits.

* `every_of_parse?`: what is read has the numbers that were written;
* `written_fits`: the naturals among them fit 64 bits.
-/

namespace NeuralNet

/-- As a natural a number fits 64 bits. -/
def Numeral.Fits (n : Numeral) : Prop := ∀ k ∈ n.toNat?, k < WrittenNumber.wordLimit

namespace Json

variable {P : Numeral → Prop} {j value : Json} {text cs rest : Input} {fuel : Nat}
  {stack : List Unclosed}

/-- Every number inside has a property. -/
inductive Every (P : Numeral → Prop) : Json → Prop
  | null : Every P .null
  | bool (b : Bool) : Every P (.bool b)
  | number {n : Numeral} (h : P n) : Every P (.number n)
  | string (s : String) : Every P (.string s)
  | array {items : List Json} (h : ∀ j ∈ items, Every P j) : Every P (.array items)
  | object {members : List (String × Json)} (h : ∀ m ∈ members, Every P m.2) :
    Every P (.object members)
  | unreadable : Every P .unreadable

/-- Every number that a container holds so far has a property. -/
def Unclosed.Every (P : Numeral → Prop) : Unclosed → Prop
  | array items => ∀ j ∈ items, j.Every P
  | object (some members) _ => ∀ m ∈ members, m.2.Every P
  | object none _ => True

/-- Whatever is written as a number has the property. -/
def Written (P : Numeral → Prop) : Prop := ∀ w n, Numeral.ofWritten? w = some n → P n

theorem Unclosed.Every.close {u : Unclosed} (h : u.Every P) : u.close.Every P := by
  match u, h with
  | .array items, h => exact .array fun j hj => h j (List.mem_reverse.mp hj)
  | .object (some members) _, h => exact .object fun m hm => h m (List.mem_reverse.mp hm)
  | .object none _, _ => exact .unreadable

theorem Unclosed.Every.closedIn {u : Unclosed} (h : u.Every P) (stack : List Unclosed) :
    (Json.closedIn stack u).Every P := by
  rw [Json.closedIn]
  split
  · exact h.close
  · exact .unreadable

theorem Unclosed.Every.add {u : Unclosed} (h : u.Every P) (hv : value.Every P) :
    (u.add value).Every P := by
  match u, h with
  | .array items, h => exact List.forall_mem_cons.mpr ⟨hv, h⟩
  | .object (some members) (some name), h => exact List.forall_mem_cons.mpr ⟨hv, h⟩
  | .object (some members) none, _ => trivial
  | .object none name, _ => cases name <;> trivial

theorem Unclosed.Every.rename {members : Option (List (String × Json))} {name : Option String}
    (h : (Unclosed.object members name).Every P) (next : Option String) :
    (Unclosed.object members next).Every P := by
  cases members <;> exact h

theorem every_literal? {word : List Char} (hv : value.Every P)
    (h : literal? word value cs = some (j, rest)) : j.Every P := by
  rw [literal?] at h
  split at h
  · cases h
    exact hv
  · cases h

theorem every_simple? (hP : Written P) (h : simple? fuel cs = some (j, rest)) : j.Every P := by
  unfold simple? at h
  split at h
  · exact every_literal? .null h
  · exact every_literal? (.bool true) h
  · exact every_literal? (.bool false) h
  · obtain ⟨⟨s, rest⟩, -, heq⟩ := Option.map_eq_some_iff.mp h
    cases heq
    cases s with
    | none => exact .unreadable
    | some s => exact .string s
  · obtain ⟨⟨w, rest⟩, -, heq⟩ := Option.map_eq_some_iff.mp h
    cases heq
    rw [ofWritten]
    split
    · exact .number (hP w _ ‹_›)
    · exact .unreadable

/-- A step of the reader keeps the property of what lies on the stack and of what was just read. -/
theorem every_readOn? (hP : Written P) {value : Option Json} (hstack : ∀ u ∈ stack, u.Every P)
    (hvalue : ∀ v ∈ value, v.Every P) (h : readOn? fuel stack value cs = some (j, rest)) :
    j.Every P := by
  induction fuel generalizing stack value cs with
  | zero => cases h
  | succ fuel ih =>
    have hempty : ∀ u ∈ Unclosed.array [] :: stack, u.Every P :=
      List.forall_mem_cons.mpr ⟨by simp [Unclosed.Every], hstack⟩
    have hopen : ∀ name, ∀ u ∈ Unclosed.object (some []) name :: stack, u.Every P := fun name =>
      List.forall_mem_cons.mpr ⟨by simp [Unclosed.Every], hstack⟩
    cases value with
    | none =>
      rw [readOn?] at h
      split at h
      · split at h
        · exact ih hstack (by simpa using (hempty _ List.mem_cons_self).closedIn stack) h
        · exact ih hempty (by simp) h
      · split at h
        · exact ih hstack (by simpa using (hopen none _ List.mem_cons_self).closedIn stack) h
        · split at h
          · exact ih (hopen _) (by simp) h
          · cases h
      · split at h
        · rename_i hsimple
          exact ih hstack (by simpa using every_simple? hP hsimple) h
        · cases h
    | some value =>
      have hv := hvalue value rfl
      cases stack with
      | nil =>
        cases h
        exact hv
      | cons container stack =>
        obtain ⟨hcontainer, hstack⟩ := List.forall_mem_cons.mp hstack
        have hadd := hcontainer.add hv
        rw [readOn?] at h
        split at h
        · rename_i hitems
          exact ih (List.forall_mem_cons.mpr ⟨hitems ▸ hadd, hstack⟩) (by simp) h
        · rename_i hmembers
          split at h
          · exact ih (List.forall_mem_cons.mpr ⟨(hmembers ▸ hadd).rename _, hstack⟩) (by simp) h
          · cases h
        · rename_i hitems
          exact ih hstack (by simpa using (hitems ▸ hadd).closedIn stack) h
        · rename_i hmembers
          exact ih hstack (by simpa using (hmembers ▸ hadd).closedIn stack) h
        · cases h

/-- What is read has the numbers that were written. -/
theorem every_of_parse? (hP : Written P) {text : String} (h : parse? text = some j) :
    j.Every P := by
  simp only [parse?] at h
  split at h
  · rename_i hread
    split at h
    · cases h
      exact every_readOn? hP (by simp) (by simp) hread
    · cases h
  · cases h

/-! ## Naturals -/

theorem append_lt {n : Nat} (ds : List Nat) (count : Nat) (h : n < WrittenNumber.wordLimit) :
    (WrittenNumber.append ds n count).1 < WrittenNumber.wordLimit := by
  induction ds generalizing n count with
  | nil => exact h
  | cons d ds ih =>
    rw [WrittenNumber.append]
    split
    · exact ih _ ‹_›
    · exact h

theorem wholePart?_lt {w : WrittenNumber} {n : Nat} (h : w.wholePart? = some n) :
    n < WrittenNumber.wordLimit := by
  have hlt := append_lt (n := 0) w.whole 0 (by decide)
  rw [WrittenNumber.wholePart?] at h
  generalize WrittenNumber.append w.whole 0 0 = r at h hlt
  obtain ⟨m, taken⟩ := r
  dsimp only at h
  split at h
  · cases h
    exact hlt
  · cases h

/-- A whole number has its digits as they are, or with a sign if it is not 0. -/
theorem wholeOf?_cases {w : WrittenNumber} {i : Int} (h : Numeral.wholeOf? w = some i) :
    ∃ n : Nat, n < WrittenNumber.wordLimit ∧ (i = n ∨ n ≠ 0 ∧ i = -n) := by
  rw [Numeral.wholeOf?] at h
  split at h
  · obtain ⟨n, hn, h⟩ := Option.bind_eq_some_iff.mp h
    refine ⟨n, wholePart?_lt hn, ?_⟩
    dsimp only at h
    split at h
    · cases h
      exact .inl rfl
    · split at h
      · rename_i hbounds
        cases h
        exact .inr ⟨hbounds.1, rfl⟩
      · cases h
  · cases h

/-- Whatever is written and read as a natural fits 64 bits. -/
theorem written_fits : Written Numeral.Fits := by
  intro w n hn k hk
  rw [Numeral.ofWritten?] at hn
  split at hn
  · rename_i hwhole
    cases hn
    obtain ⟨m, hlt, rfl | ⟨hne, rfl⟩⟩ := wholeOf?_cases hwhole
    · cases hk
      exact hlt
    · obtain ⟨m, rfl⟩ := Nat.exists_eq_add_one_of_ne_zero hne
      cases hk
  · obtain ⟨word, -, rfl⟩ := Option.map_eq_some_iff.mp hn
    cases hk

theorem Every.toNat?_lt (h : j.Every Numeral.Fits) {k : Nat} (hk : j.toNat? = some k) :
    k < WrittenNumber.wordLimit := by
  cases h with
  | number h => exact h k hk
  | _ => cases hk

/-- Fields are parts of a form. -/
theorem Every.of_mem_fields? {names : List String} {fields : List (Option Json)} (h : j.Every P)
    (hf : j.fields? names = some fields) {value : Json} (hv : some value ∈ fields) :
    value.Every P := by
  cases h with
  | object h =>
    obtain ⟨name, -, hname⟩ := exists_of_mem_right (mapM_eq_some_iff.mp hf) hv
    rw [single?] at hname
    split at hname
    · cases hname
    · rename_i heq
      cases hname
      exact h _ (List.mem_of_mem_filter (heq ▸ List.mem_singleton_self _))
    · cases hname
  | array h =>
    rw [fields?] at hf
    split at hf
    · cases hf
      rcases List.mem_append.mp hv with hv | hv
      · obtain ⟨item, hitem, heq⟩ := List.mem_map.mp hv
        cases heq
        exact h value hitem
      · cases List.eq_of_mem_replicate hv
    · cases hf
  | _ => cases hf

end Json

end NeuralNet
