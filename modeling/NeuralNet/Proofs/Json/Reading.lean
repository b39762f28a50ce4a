import Mathlib.Data.List.Forall2
import NeuralNet.Json.Form
import NeuralNet.Proofs.Json.Number

/-!
# Reading what was written

A text is read as a value if the reader takes just that text off its input, in front of anything
that may follow a value. Fuel is no part of that: every step takes a character, so the fuel that
exceeds the length of the input before a step exceeds it after the step.

* `reads_quotedText`, `reads_toString`, `reads_objectText`: what the texts of names, of naturals and
  of objects are read as;
* `parse?_of_reads`: a document that is such a text alone.
-/

namespace NeuralNet.Json

variable {c : Char} {cs rest tail text : Input} {fuel : Nat} {stack : List Unclosed} {value : Json}
  {w : WrittenNumber} {ds : List Nat}

/-- The text is read as the value, in front of what may follow it and inside containers that leave
room for `depth` more. -/
def Reads (depth : Nat) (text : Input) (value : Json) : Prop :=
  ∀ ⦃stack : List Unclosed⦄ ⦃rest : Input⦄ ⦃fuel : Nat⦄, stack.length + depth ≤ maxDepth →
    Ends rest → (text ++ rest).length < fuel →
    ∃ left, rest.length < left ∧
      readOn? fuel stack none (text ++ rest) = readOn? left stack (some value) rest

theorem Reads.mono {d e : Nat} (h : Reads d text value) (hle : d ≤ e) : Reads e text value :=
  fun _ _ _ hstack => h (Nat.le_trans (Nat.add_le_add_left hle _) hstack)

theorem parse?_of_reads {depth : Nat} {text : String} (hd : depth ≤ maxDepth)
    (h : Reads depth text.toList value) : parse? text = some value := by
  have hlen : (text.toList ++ []).length < text.toList.length + 1 := by simp
  obtain ⟨left, hleft, hread⟩ := @h [] [] _ (by simpa using hd) ends_nil hlen
  obtain ⟨left, rfl⟩ := Nat.exists_eq_add_one_of_ne_zero (Nat.ne_zero_of_lt hleft)
  rw [List.append_nil] at hread
  simp only [parse?, hread]
  rfl

theorem skipBlanks_cons (h : isBlank c = false) : skipBlanks (c :: cs) = c :: cs := by
  simp [skipBlanks, h]

theorem readOn?_of_simple (hblank : isBlank c = false) (harray : c ≠ '[') (hobject : c ≠ '{')
    (h : simple? fuel (c :: cs) = some (value, rest)) :
    readOn? (fuel + 1) stack none (c :: cs) = readOn? fuel stack (some value) rest := by
  rw [readOn?, skipBlanks_cons hblank]
  split
  · rename_i heq
    exact absurd (List.cons.inj heq).1 harray
  · rename_i heq
    exact absurd (List.cons.inj heq).1 hobject
  · rw [h]

/-- What is no container is read in one step. -/
theorem reads_of_simple (hblank : isBlank c = false) (harray : c ≠ '[') (hobject : c ≠ '{')
    (h : ∀ {rest fuel}, Ends rest → (c :: cs ++ rest).length ≤ fuel →
      simple? fuel (c :: cs ++ rest) = some (value, rest)) :
    Reads 0 (c :: cs) value := by
  intro stack rest fuel _ hrest hfuel
  obtain ⟨fuel, rfl⟩ := Nat.exists_eq_add_one_of_ne_zero (Nat.ne_zero_of_lt hfuel)
  refine ⟨fuel, ?_, readOn?_of_simple hblank harray hobject (h hrest (by omega))⟩
  simp only [List.length_append, List.length_cons] at hfuel
  omega

theorem reads_null : Reads 0 "null".toList .null :=
  show Reads 0 ['n', 'u', 'l', 'l'] .null from
    reads_of_simple (by decide) (by decide) (by decide) fun _ _ => rfl

/-- A number that is read alone is read among others. -/
theorem reads_ofWritten (hw : written? text = some (w, [])) : Reads 0 text (ofWritten w) := by
  obtain ⟨c, cs, rfl, hc⟩ := exists_head_of_written? hw
  have hne : ∀ d, d ≠ '-' → isDigit d = false → c ≠ d := by
    rintro d hd hdigit rfl
    rcases hc with rfl | hc
    · exact hd rfl
    · rw [hdigit] at hc
      cases hc
  have hblank : isBlank c = false := by
    simp only [isBlank, Bool.or_eq_false_iff, decide_eq_false_iff_not]
    exact ⟨⟨⟨hne _ (by decide) (by decide), hne _ (by decide) (by decide)⟩,
      hne _ (by decide) (by decide)⟩, hne _ (by decide) (by decide)⟩
  refine reads_of_simple hblank (hne _ (by decide) (by decide)) (hne _ (by decide) (by decide))
    fun hrest _ => ?_
  have happ := written?_append hrest hw
  rw [List.cons_append] at happ ⊢
  unfold simple?
  split
  · rename_i heq
    exact absurd (List.cons.inj heq).1 (hne 'n' (by decide) (by decide))
  · rename_i heq
    exact absurd (List.cons.inj heq).1 (hne 't' (by decide) (by decide))
  · rename_i heq
    exact absurd (List.cons.inj heq).1 (hne 'f' (by decide) (by decide))
  · rename_i heq
    exact absurd (List.cons.inj heq).1 (hne '"' (by decide) (by decide))
  · rw [happ]
    rfl

theorem reads_toString {n : Nat} (h : n < WrittenNumber.wordLimit) :
    Reads 0 (toString n).toList (.number (.whole n)) := by
  have hread := reads_ofWritten (written?_toString n)
  rwa [ofWritten, ofWritten?_toDigits h] at hread

/-! ## Names -/

/-- Whether a character stands for itself between quotes. -/
def isPlain (c : Char) : Bool := c ≠ '"' && c ≠ '\\' && 32 ≤ c.toNat

theorem characters?_of_plain {read : List Char} (hplain : text.all isPlain = true)
    (hfuel : text.length < fuel) :
    characters? fuel (some read) (text ++ '"' :: rest) =
      some (some (String.ofList (read.reverse ++ text)), rest) := by
  obtain ⟨fuel, rfl⟩ := Nat.exists_eq_add_one_of_ne_zero (Nat.ne_zero_of_lt hfuel)
  induction text generalizing read fuel with
  | nil => simp [characters?]
  | cons c text ih =>
    rw [List.all_cons, Bool.and_eq_true] at hplain
    have hc := hplain.1
    simp only [isPlain, Bool.and_eq_true, decide_eq_true_eq] at hc
    obtain ⟨⟨hquote, hescape⟩, hcontrol⟩ := hc
    obtain ⟨fuel, rfl⟩ :=
      Nat.exists_eq_add_one_of_ne_zero (Nat.ne_zero_of_lt (Nat.lt_of_succ_lt_succ hfuel))
    have hrest : characters? (fuel + 1) (some (c :: read)) (text ++ '"' :: rest) = _ :=
      ih hplain.2 fuel (Nat.lt_of_succ_lt_succ hfuel)
    rw [List.reverse_cons, List.append_assoc] at hrest
    rw [List.cons_append, characters?]
    · rw [if_neg (Nat.not_lt.mpr hcontrol)]
      exact hrest
    · exact hquote
    · exact hescape

theorem toList_quotedText (s : String) : (quotedText s).toList = '"' :: (s.toList ++ ['"']) := by
  simp [quotedText]

theorem reads_quotedText {s : String} (hplain : s.toList.all isPlain = true) :
    Reads 0 (quotedText s).toList (.string s) := by
  rw [toList_quotedText]
  refine reads_of_simple (by decide) (by decide) (by decide) @fun rest fuel _ hfuel => ?_
  simp only [List.cons_append, List.append_assoc, List.nil_append, List.length_cons,
    List.length_append] at hfuel ⊢
  have hread : characters? fuel (some []) (s.toList ++ '"' :: rest) = _ :=
    characters?_of_plain hplain (by omega)
  simp [simple?, text?, hread, ofText]

theorem name?_of_plain {name : String} (hplain : name.toList.all isPlain = true)
    (hfuel : name.toList.length < fuel) :
    name? fuel ((quotedText name).toList ++ ':' :: rest) = some (some name, rest) := by
  have hread : characters? fuel (some []) (name.toList ++ '"' :: ':' :: rest) = _ :=
    characters?_of_plain hplain hfuel
  rw [toList_quotedText, List.cons_append, List.append_assoc, name?, skipBlanks_cons (by decide)]
  simp only [text?, List.singleton_append, hread]
  rw [skipBlanks_cons (by decide)]
  simp

/-! ## Objects -/

/-- The text of a member of an object. -/
def memberInput (member : String × String) : Input :=
  (quotedText member.1).toList ++ ':' :: member.2.toList

/-- The members that follow on others, and the end of the object. -/
def remainder (members : List (String × String)) : Input :=
  members.flatMap (fun member => ',' :: memberInput member) ++ ['}']

/-- What the text of a member is read as. -/
structure ReadsMember (depth : Nat) (member : String × String) (entry : String × Json) : Prop where
  name : member.1 = entry.1
  plain : entry.1.toList.all isPlain = true
  value : Reads depth member.2.toList entry.2

variable {members : List (String × String)} {entries : List (String × Json)} {depth : Nat}

theorem ends_remainder (members : List (String × String)) (rest : Input) :
    Ends (remainder members ++ rest) := by
  cases members with
  | nil =>
    rintro c ⟨⟩
    decide
  | cons member members =>
    rintro c ⟨⟩
    decide

theorem closedIn_eq (container : Unclosed) (hstack : stack.length + 1 ≤ maxDepth) :
    closedIn stack container = container.close := by
  rw [closedIn, if_pos]
  rw [List.isEmpty_iff, List.drop_eq_nil_iff]
  omega

theorem readOn?_close {done : List (String × Json)} {name : String}
    (hstack : stack.length + 1 ≤ maxDepth) :
    readOn? (fuel + 1) (.object (some done) (some name) :: stack) (some value) ('}' :: rest) =
      readOn? fuel stack (some (.object ((name, value) :: done).reverse)) rest := by
  rw [readOn?, skipBlanks_cons (by decide)]
  simp [Unclosed.add, closedIn_eq _ hstack, Unclosed.close]

theorem readOn?_next {done : List (String × Json)} {name next : String}
    (hplain : next.toList.all isPlain = true) (hfuel : next.toList.length < fuel) :
    readOn? (fuel + 1) (.object (some done) (some name) :: stack) (some value)
        (',' :: ((quotedText next).toList ++ ':' :: rest)) =
      readOn? fuel (.object (some ((name, value) :: done)) (some next) :: stack) none rest := by
  rw [readOn?, skipBlanks_cons (by decide)]
  simp [Unclosed.add, name?_of_plain hplain hfuel]

theorem readOn?_open {next : String} (hplain : next.toList.all isPlain = true)
    (hfuel : next.toList.length < fuel) :
    readOn? (fuel + 1) stack none ('{' :: ((quotedText next).toList ++ ':' :: rest)) =
      readOn? fuel (.object (some []) (some next) :: stack) none rest := by
  have hname : name? fuel ((quotedText next).toList ++ ':' :: rest) = _ :=
    name?_of_plain hplain hfuel
  rw [toList_quotedText, List.cons_append] at hname ⊢
  rw [readOn?, skipBlanks_cons (by decide)]
  simp only [skipBlanks_cons (show isBlank '"' = false by decide)]
  split
  · rename_i heq
    exact absurd (List.cons.inj heq).1 (by decide)
  · rw [hname]

/-- A name and what follows its colon: the fuel for all of it is enough for each. -/
theorem fuel_of_member {name : String} (h : ((quotedText name).toList ++ ':' :: cs).length < fuel) :
    name.toList.length < fuel ∧ cs.length < fuel := by
  simp only [toList_quotedText, List.length_cons, List.length_append] at h
  constructor <;> omega

/-- Behind the name of a member its object is read to the end. -/
theorem readOn?_members {member : String × String} {entry : String × Json}
    (h : ReadsMember depth member entry) (hm : List.Forall₂ (ReadsMember depth) members entries)
    {done : List (String × Json)} (hstack : stack.length + (depth + 1) ≤ maxDepth)
    (hfuel : (member.2.toList ++ (remainder members ++ rest)).length < fuel) :
    ∃ left, rest.length < left ∧
      readOn? fuel (.object (some done) (some entry.1) :: stack) none
          (member.2.toList ++ (remainder members ++ rest)) =
        readOn? left stack (some (.object (done.reverse ++ entry :: entries))) rest := by
  have hroom : ∀ container : Unclosed, (container :: stack).length + depth ≤ maxDepth := by
    intro container
    rw [List.length_cons]
    omega
  induction hm generalizing member entry done fuel with
  | nil =>
    obtain ⟨left, hleft, hread⟩ := h.value (hroom _) (ends_remainder [] rest) hfuel
    obtain ⟨left, rfl⟩ := Nat.exists_eq_add_one_of_ne_zero (Nat.ne_zero_of_lt hleft)
    refine ⟨left, by simpa [remainder] using hleft, hread.trans ?_⟩
    rw [remainder, List.flatMap_nil, List.nil_append, List.singleton_append,
      readOn?_close (by omega), List.reverse_cons]
  | @cons next entry' members entries hnext hm ih =>
    obtain ⟨left, hleft, hread⟩ := h.value (hroom _) (ends_remainder (next :: members) rest) hfuel
    obtain ⟨left, rfl⟩ := Nat.exists_eq_add_one_of_ne_zero (Nat.ne_zero_of_lt hleft)
    have hsplit : remainder (next :: members) ++ rest =
        ',' :: ((quotedText entry'.1).toList ++ ':' ::
          (next.2.toList ++ (remainder members ++ rest))) := by
      simp [remainder, memberInput, hnext.name]
    rw [hread, hsplit]
    rw [hsplit, List.length_cons] at hleft
    obtain ⟨hname, hvalue⟩ := fuel_of_member (Nat.lt_of_succ_lt_succ hleft)
    rw [readOn?_next hnext.plain hname]
    obtain ⟨left', hleft', hend⟩ := ih hnext hvalue
    refine ⟨left', hleft', hend.trans ?_⟩
    rw [List.reverse_cons, List.append_assoc, List.singleton_append]

theorem intercalate_comma (first : Input) (texts : List Input) :
    [','].intercalate (first :: texts) = first ++ texts.flatMap (',' :: ·) := by
  induction texts generalizing first with
  | nil => simp
  | cons next texts ih =>
    rw [List.intercalate_cons_cons, ih, List.flatMap_cons, List.append_assoc]
    rfl

theorem toList_objectText (member : String × String) (members : List (String × String)) :
    (objectText (member :: members)).toList = '{' :: (memberInput member ++ remainder members) := by
  have htext : ∀ member : String × String,
      (quotedText member.1 ++ ":" ++ member.2).toList = memberInput member := by
    simp [memberInput]
  have hopen : ("\x7b" : String).toList = ['{'] := rfl
  have hclose : ("\x7d" : String).toList = ['}'] := rfl
  have hcomma : ("," : String).toList = [','] := rfl
  rw [objectText, String.toList_append, String.toList_append, String.toList_intercalate, hopen,
    hclose, hcomma, List.map_map, List.map_cons, intercalate_comma, remainder]
  simp [List.flatMap_map, htext]

/-- An object is read with its members in their order. -/
theorem reads_objectText (hm : List.Forall₂ (ReadsMember depth) members entries) :
    Reads (depth + 1) (objectText members).toList (.object entries) := by
  intro stack rest fuel hstack _ hfuel
  obtain ⟨fuel, rfl⟩ := Nat.exists_eq_add_one_of_ne_zero (Nat.ne_zero_of_lt hfuel)
  cases hm with
  | nil =>
    have htext : (objectText []).toList = ['{', '}'] := rfl
    rw [htext] at hfuel ⊢
    refine ⟨fuel, by simp only [List.length_append, List.length_cons] at hfuel; omega, ?_⟩
    rw [List.cons_append, readOn?, skipBlanks_cons (by decide)]
    simp only [List.cons_append, List.nil_append,
      skipBlanks_cons (show isBlank '}' = false by decide)]
    simp [closedIn_eq _ (show stack.length + 1 ≤ maxDepth by omega), Unclosed.close]
  | @cons member entry members entries h hm =>
    have hsplit : (objectText (member :: members)).toList ++ rest =
        '{' :: ((quotedText entry.1).toList ++ ':' ::
          (member.2.toList ++ (remainder members ++ rest))) := by
      rw [toList_objectText]
      simp [memberInput, h.name]
    rw [hsplit] at hfuel ⊢
    obtain ⟨hname, hvalue⟩ := fuel_of_member (Nat.lt_of_succ_lt_succ hfuel)
    rw [readOn?_open h.plain hname]
    exact readOn?_members h hm hstack hvalue

end NeuralNet.Json
