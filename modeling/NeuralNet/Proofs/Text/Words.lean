import NeuralNet.Text.Processor

/-!
# Cutting texts into words

A text is read character by character, with the word that is not at its end yet kept apart. What is
cut out are words, they hold all that is no gap, and cutting words again leaves them. So it makes no
difference whether a text was cut at its gaps before, and words that are joined by a gap can be cut
out again.

* `IsWord`: what can be cut out;
* `flatMap_wordsFrom`: a cut into finer words after a coarser one;
* `punctuation_separates`: the words and marks that texts are cut into.
-/

namespace NeuralNet.Text

variable {part : Char → Part} {c : Char} {w word run cs rest : List Char} {ws : List (List Char)}

/-- A character that is a word of its own, or characters that belong to one word. -/
def IsWord (part : Char → Part) (w : List Char) : Prop :=
  (∃ c, part c = .alone ∧ w = [c]) ∨ w ≠ [] ∧ ∀ c ∈ w, part c = .inside

/-! ## Single steps -/

theorem wordsFrom_inside (h : part c = .inside) :
    wordsFrom part word (c :: rest) = wordsFrom part (c :: word) rest := by
  rw [wordsFrom, h]

theorem wordsFrom_gap (h : part c = .gap) :
    wordsFrom part word (c :: rest) = closed word ++ wordsFrom part [] rest := by
  rw [wordsFrom, h]

theorem wordsFrom_alone (h : part c = .alone) :
    wordsFrom part word (c :: rest) = closed word ++ [c] :: wordsFrom part [] rest := by
  rw [wordsFrom, h]

theorem closed_of_ne_nil (h : word ≠ []) : closed word = [word.reverse] := by
  cases word with
  | nil => exact absurd rfl h
  | cons c word => rfl

theorem flatten_closed (word : List Char) : (closed word).flatten = word.reverse := by
  cases word <;> simp [closed]

theorem isWord_of_mem_closed (hword : ∀ c ∈ word, part c = .inside) (h : w ∈ closed word) :
    IsWord part w := by
  cases word with
  | nil => cases h
  | cons c word =>
    obtain rfl := List.mem_singleton.mp h
    exact .inr ⟨by simp, fun a ha => hword a (List.mem_reverse.mp ha)⟩

/-! ## What is cut out -/

theorem isWord_of_mem_wordsFrom (hword : ∀ c ∈ word, part c = .inside)
    (h : w ∈ wordsFrom part word cs) : IsWord part w := by
  induction cs generalizing word with
  | nil => exact isWord_of_mem_closed hword h
  | cons c rest ih =>
    have hnone : ∀ a ∈ ([] : List Char), part a = .inside := by simp
    cases hc : part c with
    | inside =>
      rw [wordsFrom_inside hc] at h
      exact ih (List.forall_mem_cons.mpr ⟨hc, hword⟩) h
    | gap =>
      rw [wordsFrom_gap hc] at h
      exact (List.mem_append.mp h).elim (isWord_of_mem_closed hword) (ih hnone)
    | alone =>
      rw [wordsFrom_alone hc] at h
      rcases List.mem_append.mp h with h | h
      · exact isWord_of_mem_closed hword h
      · rcases List.mem_cons.mp h with rfl | h
        · exact .inl ⟨c, hc, rfl⟩
        · exact ih hnone h

/-- Nothing is lost but the gaps. -/
theorem flatten_wordsFrom (part : Char → Part) (word cs : List Char) :
    (wordsFrom part word cs).flatten = word.reverse ++ cs.filter (part · ≠ .gap) := by
  induction cs generalizing word with
  | nil => simpa [wordsFrom] using flatten_closed word
  | cons c rest ih =>
    cases hc : part c with
    | inside => simp [wordsFrom_inside hc, ih, hc]
    | gap => simp [wordsFrom_gap hc, ih, hc, flatten_closed]
    | alone => simp [wordsFrom_alone hc, ih, hc, flatten_closed]

/-! ## Cutting again -/

theorem wordsFrom_run (hrun : ∀ c ∈ run, part c = .inside) :
    wordsFrom part word (run ++ rest) = wordsFrom part (run.reverse ++ word) rest := by
  induction run generalizing word with
  | nil => rfl
  | cons c run ih =>
    obtain ⟨hc, hrun⟩ := List.forall_mem_cons.mp hrun
    rw [List.cons_append, wordsFrom_inside hc, ih hrun, List.reverse_cons, List.append_assoc,
      List.singleton_append]

theorem wordsFrom_of_isWord (h : IsWord part w) : wordsFrom part [] w = [w] := by
  rcases h with ⟨c, hc, rfl⟩ | ⟨hne, hall⟩
  · rw [wordsFrom_alone hc]
    rfl
  · have hrun := @wordsFrom_run part [] w [] hall
    rw [List.append_nil, List.append_nil] at hrun
    rw [hrun, wordsFrom, closed_of_ne_nil (List.reverse_ne_nil_iff.mpr hne), List.reverse_reverse]

theorem flatMap_wordsFrom_of_isWord (h : ∀ w ∈ ws, IsWord part w) :
    ws.flatMap (wordsFrom part []) = ws := by
  induction ws with
  | nil => rfl
  | cons w ws ih =>
    obtain ⟨hw, hws⟩ := List.forall_mem_cons.mp h
    rw [List.flatMap_cons, wordsFrom_of_isWord hw, ih hws]
    rfl

/-- What comes before a gap and what comes behind it are cut apart from each other. -/
theorem wordsFrom_append_gap (hc : part c = .gap) :
    wordsFrom part word (cs ++ c :: rest) =
      wordsFrom part word cs ++ wordsFrom part [] rest := by
  induction cs generalizing word with
  | nil => exact wordsFrom_gap hc
  | cons a cs ih =>
    rw [List.cons_append]
    cases ha : part a with
    | inside => rw [wordsFrom_inside ha, wordsFrom_inside ha, ih]
    | gap => rw [wordsFrom_gap ha, wordsFrom_gap ha, ih, List.append_assoc]
    | alone => rw [wordsFrom_alone ha, wordsFrom_alone ha, ih, List.append_assoc, List.cons_append]

/-- To cut at gaps first makes no difference to a cut that has the same gaps. -/
theorem flatMap_wordsFrom {coarse fine : Char → Part} (hgap : ∀ c, coarse c = .gap → fine c = .gap)
    (halone : ∀ c, coarse c ≠ .alone) (word cs : List Char) :
    (wordsFrom coarse word cs).flatMap (wordsFrom fine []) =
      wordsFrom fine [] (word.reverse ++ cs) := by
  have hclosed : ∀ word, (closed word).flatMap (wordsFrom fine []) =
      wordsFrom fine [] word.reverse := by
    intro word
    cases word <;> simp [closed, wordsFrom]
  induction cs generalizing word with
  | nil => rw [wordsFrom, hclosed, List.append_nil]
  | cons c rest ih =>
    cases hc : coarse c with
    | inside => rw [wordsFrom_inside hc, ih, List.reverse_cons, List.append_assoc,
        List.singleton_append]
    | gap => rw [wordsFrom_gap hc, List.flatMap_append, hclosed, ih, List.reverse_nil,
        List.nil_append, wordsFrom_append_gap (hgap c hc)]
    | alone => exact absurd hc (halone c)

/-- Words that are joined by a gap are cut out again. -/
theorem wordsFrom_intercalate (hc : part c = .gap) (h : ∀ w ∈ ws, IsWord part w) :
    wordsFrom part [] ([c].intercalate ws) = ws := by
  induction ws with
  | nil => rfl
  | cons w ws ih =>
    obtain ⟨hw, hws⟩ := List.forall_mem_cons.mp h
    cases ws with
    | nil => rw [List.intercalate_singleton, wordsFrom_of_isWord hw]
    | cons w' ws =>
      rw [List.intercalate_cons_cons, List.append_assoc, List.singleton_append,
        wordsFrom_append_gap hc, wordsFrom_of_isWord hw, ih hws]
      rfl

/-! ## Texts -/

section

variable {t : String} {texts tokens : List String}

theorem map_toList_flatMap_words (part : Char → Part) (texts : List String) :
    (texts.flatMap (words part)).map String.toList =
      (texts.map String.toList).flatMap (wordsFrom part []) := by
  simp [words, List.map_flatMap, List.flatMap_map, Function.comp_def]

theorem eq_of_map_toList (h : texts.map String.toList = tokens.map String.toList) :
    texts = tokens :=
  (List.map_inj_right fun _ _ => String.toList_injective).mp h

theorem isWord_of_mem_flatMap_words (h : t ∈ texts.flatMap (words part)) :
    IsWord part t.toList := by
  have hmem : t.toList ∈ (texts.flatMap (words part)).map String.toList := List.mem_map_of_mem h
  rw [map_toList_flatMap_words] at hmem
  obtain ⟨text, -, hword⟩ := List.mem_flatMap.mp hmem
  exact isWord_of_mem_wordsFrom (by simp) hword

theorem toList_join_flatMap_words (part : Char → Part) (texts : List String) :
    (String.join (texts.flatMap (words part))).toList =
      (String.join texts).toList.filter (part · ≠ .gap) := by
  rw [String.toList_join, List.flatMap_def, map_toList_flatMap_words, String.toList_join,
    List.filter_flatMap, List.flatten_eq_flatMap, List.flatMap_assoc, List.flatMap_map]
  simp only [← List.flatten_eq_flatMap, flatten_wordsFrom, List.reverse_nil, List.nil_append]

theorem flatMap_words_of_isWord (h : ∀ t ∈ tokens, IsWord part t.toList) :
    tokens.flatMap (words part) = tokens := by
  refine eq_of_map_toList ((map_toList_flatMap_words part tokens).trans ?_)
  exact flatMap_wordsFrom_of_isWord (List.forall_mem_map.mpr h)

theorem flatMap_words_flatMap_words {coarse fine : Char → Part}
    (hgap : ∀ c, coarse c = .gap → fine c = .gap) (halone : ∀ c, coarse c ≠ .alone)
    (texts : List String) :
    (texts.flatMap (words coarse)).flatMap (words fine) = texts.flatMap (words fine) := by
  refine eq_of_map_toList ?_
  rw [map_toList_flatMap_words, map_toList_flatMap_words, map_toList_flatMap_words,
    List.flatMap_assoc]
  simp only [flatMap_wordsFrom hgap halone, List.reverse_nil, List.nil_append]

theorem words_intercalate (hgap : part ' ' = .gap) (h : ∀ t ∈ tokens, IsWord part t.toList) :
    words part (" ".intercalate tokens) = tokens := by
  refine eq_of_map_toList ?_
  have hcut := map_toList_flatMap_words part [" ".intercalate tokens]
  rw [List.flatMap_singleton, List.map_singleton, List.flatMap_singleton,
    String.toList_intercalate] at hcut
  exact hcut.trans (wordsFrom_intercalate hgap (List.forall_mem_map.mpr h))

end

/-! ## Marks and white space -/

theorem isBlank_of_isMark (h : isMark c = true) : isBlank c = false := by
  simp only [isMark, isBlank, Bool.or_eq_true, Bool.and_eq_true, decide_eq_true_eq,
    Bool.or_eq_false_iff, Bool.and_eq_false_iff, decide_eq_false_iff_not] at h ⊢
  omega

theorem markPart_eq_alone_iff : markPart c = .alone ↔ isMark c = true := by
  unfold markPart blankPart
  cases isMark c <;> cases isBlank c <;> simp

theorem markPart_eq_gap_iff : markPart c = .gap ↔ isBlank c = true := by
  unfold markPart blankPart
  cases hmark : isMark c with
  | true => simp [isBlank_of_isMark hmark]
  | false => cases isBlank c <;> simp

theorem markPart_eq_inside_iff :
    markPart c = .inside ↔ isMark c = false ∧ isBlank c = false := by
  unfold markPart blankPart
  cases isMark c <;> cases isBlank c <;> simp

theorem blankPart_eq_gap_iff : blankPart c = .gap ↔ isBlank c = true := by
  unfold blankPart
  cases isBlank c <;> simp

theorem blankPart_eq_inside_iff : blankPart c = .inside ↔ isBlank c = false := by
  unfold blankPart
  cases isBlank c <;> simp

theorem blankPart_ne_alone (c : Char) : blankPart c ≠ .alone := by
  unfold blankPart
  cases isBlank c <;> simp

/-- Marks belong to words where only white space is left out. -/
theorem isWord_blankPart (h : IsWord markPart w) : IsWord blankPart w := by
  rcases h with ⟨a, ha, rfl⟩ | ⟨hne, hall⟩
  · have hblank := isBlank_of_isMark (markPart_eq_alone_iff.mp ha)
    refine .inr ⟨List.cons_ne_nil a [], List.forall_mem_singleton.mpr ?_⟩
    exact blankPart_eq_inside_iff.mpr hblank
  · exact .inr ⟨hne, fun a ha =>
      blankPart_eq_inside_iff.mpr (markPart_eq_inside_iff.mp (hall a ha)).2⟩

theorem isWord_markPart_iff {t : String} : IsWord markPart t.toList ↔
    (∃ c, isMark c = true ∧ t = String.singleton c) ∨
      t ≠ "" ∧ ∀ c ∈ t.toList, isMark c = false ∧ isBlank c = false := by
  have hsingle : ∀ c, t.toList = [c] ↔ t = String.singleton c := by
    intro c
    rw [← String.toList_singleton, String.toList_inj]
  simp only [IsWord, markPart_eq_alone_iff, markPart_eq_inside_iff, hsingle, ne_eq,
    String.toList_eq_nil_iff]

/-- Texts are cut into single marks and words without marks and white space. All characters but the
white space are kept, in their order. To cut again changes nothing, nor does it make a difference
whether the texts were cut at white space before; and joined by spaces the words are found again. -/
theorem Processor.punctuation_separates (tokens : List String) :
    (∀ t ∈ punctuation.apply tokens, (∃ c, isMark c = true ∧ t = String.singleton c) ∨
      t ≠ "" ∧ ∀ c ∈ t.toList, isMark c = false ∧ isBlank c = false) ∧
    (String.join (punctuation.apply tokens)).toList =
      (String.join tokens).toList.filter (!isBlank ·) ∧
    punctuation.apply (punctuation.apply tokens) = punctuation.apply tokens ∧
    punctuation.apply (tokenizer.apply tokens) = punctuation.apply tokens ∧
    tokenizer.apply [" ".intercalate (punctuation.apply tokens)] = punctuation.apply tokens := by
  have hwords : ∀ t ∈ punctuation.apply tokens, IsWord markPart t.toList := fun t ht =>
    isWord_of_mem_flatMap_words ht
  have hgaps : ∀ c, blankPart c = .gap → markPart c = .gap := fun c hc =>
    markPart_eq_gap_iff.mpr (blankPart_eq_gap_iff.mp hc)
  refine ⟨fun t ht => isWord_markPart_iff.mp (hwords t ht), ?_, ?_, ?_, ?_⟩
  · refine (toList_join_flatMap_words markPart tokens).trans (List.filter_congr fun c _ => ?_)
    simp [markPart_eq_gap_iff]
  · exact flatMap_words_of_isWord hwords
  · exact flatMap_words_flatMap_words hgaps blankPart_ne_alone tokens
  · refine (List.flatMap_singleton ..).trans (words_intercalate ?_ fun t ht => ?_)
    · exact blankPart_eq_gap_iff.mpr (by decide)
    · exact isWord_blankPart (hwords t ht)

end NeuralNet.Text
