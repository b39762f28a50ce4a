import NeuralNet.Proofs.Text.WordEmbedding
import NeuralNet.Text.Corpus

/-!
# Collections of sentences that grow

Sentences come in by calls, and after each call everything is derived anew from all sentences so
far, the embedding apart: that one is made by the first call and stays.

* `preprocessAll_flatten`: how the sentences were cut into calls makes no difference to the tokens
  and the vocabulary;
* `embed_preprocessAll`: sentences are embedded by the vocabulary of the first call, so by the
  current one only where the two give the same ids.
-/

namespace NeuralNet.Text

namespace Corpus

variable {α : Type} {c : Corpus} {w : Workspace α} {e : WordEmbedding}

/-- Calls one after another. -/
def preprocessAll (c : Corpus) (calls : List (List String)) : Run α Corpus :=
  calls.foldlM preprocess c

/-- The embedding that the first call makes. -/
def withEmbedding (c : Corpus) (vocabulary : Vocabulary) (slot : Nat) : Corpus :=
  { c with embedding := some ⟨vocabulary, c.embeddingSize, slot⟩, trainEmbedding := true }

theorem extend_extend (c : Corpus) (texts more : List String) :
    (c.extend texts).extend more = c.extend (texts ++ more) := by
  simp [extend, List.append_assoc]

theorem foldl_extend (c : Corpus) (texts : List String) (calls : List (List String)) :
    calls.foldl extend (c.extend texts) = c.extend (texts ++ calls.flatten) := by
  induction calls generalizing texts with
  | nil => simp
  | cons call calls ih =>
    rw [List.foldl_cons, extend_extend, ih, List.flatten_cons, List.append_assoc]

/-- The embedding has no part in what further sentences change. -/
theorem foldl_extend_withEmbedding (c : Corpus) (v : Vocabulary) (slot : Nat)
    (calls : List (List String)) :
    calls.foldl extend (c.withEmbedding v slot) = (calls.foldl extend c).withEmbedding v slot := by
  induction calls generalizing c with
  | nil => rfl
  | cons call calls ih => exact ih (c.extend call)

theorem preprocess_of_some (texts : List String) (h : c.embedding = some e) :
    c.preprocess texts w = (.ok (c.extend texts), w) := by
  have hextend : (c.extend texts).embedding = some e := h
  unfold preprocess
  simp only [hextend]
  rfl

theorem preprocess_of_none (texts : List String) (h : c.embedding = none) :
    ∃ w', c.preprocess texts w = (.ok ((c.extend texts).withEmbedding
      (vocabularyOf (c.extend texts).raw) w.slots.size), w') := by
  have hextend : (c.extend texts).embedding = none := h
  have hvocabulary : (c.extend texts).vocabulary = some (vocabularyOf (c.extend texts).raw) := rfl
  unfold preprocess
  simp only [hextend, hvocabulary]
  exact ⟨_, rfl⟩

theorem preprocessAll_cons (c : Corpus) (call : List String) (calls : List (List String)) :
    (c.preprocessAll (call :: calls) : Run α Corpus) =
      c.preprocess call >>= fun c' => c'.preprocessAll calls := List.foldlM_cons

/-- With an embedding nothing is left to make. -/
theorem preprocessAll_of_some (calls : List (List String)) (h : c.embedding = some e) :
    c.preprocessAll calls w = (.ok (calls.foldl extend c), w) := by
  induction calls generalizing c with
  | nil => rfl
  | cons call calls ih =>
    have hextend : (c.extend call).embedding = some e := h
    rw [preprocessAll_cons, Run.bind_of_ok (preprocess_of_some call h), ih hextend, List.foldl_cons]

/-- What calls leave: the first one makes an embedding where there is none. -/
theorem preprocessAll_apply (c : Corpus) (first : List String) (later : List (List String))
    (w : Workspace α) :
    let texts := (first :: later).flatten
    (∀ e, c.embedding = some e → c.preprocessAll (first :: later) w = (.ok (c.extend texts), w)) ∧
    (c.embedding = none → ∃ w', c.preprocessAll (first :: later) w =
      (.ok ((c.extend texts).withEmbedding
        (vocabularyOf (c.extend first).raw) w.slots.size), w')) := by
  intro texts
  constructor
  · intro e h
    rw [preprocessAll_of_some _ h, List.foldl_cons, foldl_extend]
    rfl
  · intro h
    obtain ⟨w', hfirst⟩ := preprocess_of_none (w := w) first h
    refine ⟨w', ?_⟩
    rw [preprocessAll_cons, Run.bind_of_ok hfirst, preprocessAll_of_some later rfl]
    rw [foldl_extend_withEmbedding, foldl_extend]
    rfl

/-! ## Tokens and vocabulary -/

/-- The tokens that are never masked. -/
def alwaysKept : List String := ["<unk>", "<pad>", "<bos>", "<eos>"]

theorem mask_vocabularyOf (raw : List (List String)) (t : String) :
    (vocabularyOf raw).mask t =
      if t ∈ alwaysKept ∨ 3 ≤ raw.flatten.count t then t else "<unk>" := by
  have hknown : (vocabularyOf raw).isKnown t = true ↔
      t ∈ rule.base ∨ 3 ≤ raw.flatten.count t :=
    VocabularyRule.isKnown_build rfl (by decide)
  have hbase : rule.base = alwaysKept := by decide
  have hunknown : (vocabularyOf raw).unknownToken = "<unk>" :=
    VocabularyRule.unknownToken_build rule _
  rw [hbase] at hknown
  unfold Vocabulary.mask
  simp only [hknown, hunknown]

/-- What a collection shows does not depend on its embedding. -/
theorem preprocess_texts (c : Corpus) (texts : List String) (w : Workspace α) :
    ∃ c' w', c.preprocess texts w = (.ok c', w') ∧ c'.sentences = (c.extend texts).sentences ∧
      c'.vocabulary = (c.extend texts).vocabulary := by
  cases h : c.embedding with
  | some e => exact ⟨_, _, preprocess_of_some texts h, rfl, rfl⟩
  | none =>
    obtain ⟨w', hrun⟩ := preprocess_of_none (w := w) texts h
    exact ⟨_, w', hrun, rfl, rfl⟩

theorem preprocessAll_texts (c : Corpus) (first : List String) (later : List (List String))
    (w : Workspace α) :
    ∃ c' w', c.preprocessAll (first :: later) w = (.ok c', w') ∧
      c'.sentences = (c.extend (first :: later).flatten).sentences ∧
      c'.vocabulary = (c.extend (first :: later).flatten).vocabulary := by
  obtain ⟨hsome, hnone⟩ := preprocessAll_apply c first later w
  cases h : c.embedding with
  | some e => exact ⟨_, _, hsome e h, rfl, rfl⟩
  | none =>
    obtain ⟨w', hrun⟩ := hnone h
    exact ⟨_, w', hrun, rfl, rfl⟩

/-- However sentences are cut into calls, empty ones included, the collection has the same sentences
and vocabulary as after a single call. A token is kept if it is reserved or occurs three times in
all the sentences, and else gives way to the unknown token. -/
theorem preprocessAll_flatten (settings : CorpusSettings) (calls : List (List String))
    (w : Workspace α) :
    let c := ofSettings settings
    let raw := calls.flatten.map (Processor.ofSentence c.processors)
    ∃ cut whole w₁ w₂, c.preprocessAll calls w = (.ok cut, w₁) ∧
      c.preprocess calls.flatten w = (.ok whole, w₂) ∧
      cut.size = whole.size ∧ (∀ i, cut.tokens? i = whole.tokens? i) ∧
      (calls ≠ [] → ∃ v, cut.requireVocabulary = .ok v ∧ whole.requireVocabulary = .ok v) ∧
      ∀ i, cut.tokens? i = raw[i]?.map fun sentence => sentence.map fun t =>
        if t ∈ alwaysKept ∨ 3 ≤ raw.flatten.count t then t else "<unk>" := by
  intro c raw
  have hextend : (c.extend calls.flatten).sentences = raw.map fun sentence => sentence.map fun t =>
      if t ∈ alwaysKept ∨ 3 ≤ raw.flatten.count t then t else "<unk>" := by
    simp only [← mask_vocabularyOf]
    rfl
  obtain ⟨whole, w₂, hwhole, hsentences, hvocabulary⟩ := preprocess_texts c calls.flatten w
  cases calls with
  | nil =>
    refine ⟨c, whole, w, w₂, rfl, hwhole, ?_, ?_, fun h => absurd rfl h, ?_⟩
    · rw [size, size, hsentences, hextend]
      rfl
    · intro i
      rw [tokens?, tokens?, hsentences, hextend]
      rfl
    · intro i
      rfl
  | cons first later =>
    obtain ⟨cut, w₁, hcut, hcutSentences, hcutVocabulary⟩ := preprocessAll_texts c first later w
    have hsame : cut.sentences = whole.sentences := hcutSentences.trans hsentences.symm
    refine ⟨cut, whole, w₁, w₂, hcut, hwhole, ?_, ?_, ?_, ?_⟩
    · rw [size, size, hsame]
    · intro i
      rw [tokens?, tokens?, hsame]
    · intro _
      refine ⟨vocabularyOf raw, ?_, ?_⟩
      · rw [requireVocabulary, hcutVocabulary]
        rfl
      · rw [requireVocabulary, hvocabulary]
        rfl
    · intro i
      rw [tokens?, hcutSentences, hextend, List.getElem?_map]

/-! ## Embedding -/

/-- A sentence is embedded as the ids that a vocabulary gives its tokens, and read back as it is. -/
def EmbedsBy (c : Corpus) (v : Vocabulary) (index : Nat) : Prop :=
  ∃ tokens e, c.tokens? index = some tokens ∧ c.embedding = some e ∧
    e.tokensOf (v.ids tokens) = .ok tokens ∧
    ∀ u, ∃ t u', (c.embed index : Run Single Tensor) u = (.ok t, u') ∧ u'.value t = v.ids tokens

theorem embed_apply {c : Corpus} {e : WordEmbedding} {index : Nat} {tokens : List String}
    (htokens : c.tokens? index = some tokens) (he : c.embedding = some e)
    (htrain : c.trainEmbedding = true) : (c.embed index : Run Single Tensor) = e.ids tokens := by
  unfold embed
  rw [htokens, he]
  simp only [htrain, if_true]

/-- A sentence that a vocabulary has masked is embedded by it where the vocabulary of the embedding
gives its tokens the same ids. -/
theorem embedsBy_iff {c : Corpus} {e : WordEmbedding} {now : Vocabulary} {index : Nat}
    {tokens : List String} (htokens : c.tokens? index = some tokens) (he : c.embedding = some e)
    (htrain : c.trainEmbedding = true) (hsize : e.vocabulary.size ≤ WordEmbedding.maxTokens)
    (hnow : now.size ≤ WordEmbedding.maxTokens) (hknown : ∀ t ∈ tokens, now.isKnown t = true)
    (hunknown : e.vocabulary.unknownToken = now.unknownToken) :
    c.EmbedsBy now index ↔ ∀ t ∈ tokens, e.vocabulary.idOf t = now.idOf t := by
  have hembed := embed_apply htokens he htrain
  rw [← Vocabulary.ids_inj hsize hnow]
  constructor
  · rintro ⟨tokens', -, htokens', -, -, hembeds⟩
    obtain rfl : tokens = tokens' := Option.some.inj (htokens.symm.trans htokens')
    have u : Workspace Single := .seeded 0
    obtain ⟨t, u₁, hrun, hvalue⟩ := hembeds u
    obtain ⟨t', u₂, hids, hheld⟩ := WordEmbedding.ids_value hsize tokens u
    rw [hembed, hids] at hrun
    injection hrun with ht hu
    injection ht with ht
    rw [← hheld, ← hvalue, ht, hu]
  · intro hids
    refine ⟨tokens, e, htokens, he, ?_, ?_⟩
    · rw [← hids, WordEmbedding.tokensOf_ids hsize tokens]
      exact congrArg Except.ok
        (Vocabulary.map_mask_of_idOf hknown hunknown ((Vocabulary.ids_inj hsize hnow).mp hids))
    · intro u
      rw [hembed, ← hids]
      exact WordEmbedding.ids_value hsize tokens u

/-- What calls leave where no embedding was given. -/
theorem preprocessAll_ofSettings {settings : CorpusSettings} (h : settings.embedding = none)
    (first : List String) (later : List (List String)) (w : Workspace Single) :
    let process := Processor.ofSentence (ofSettings settings).processors
    let raw := (first :: later).flatten.map process
    ∃ c e w', (ofSettings settings).preprocessAll (first :: later) w = (.ok c, w') ∧
      c.requireVocabulary = .ok (vocabularyOf raw) ∧ c.embedding = some e ∧
      e.vocabulary = vocabularyOf (first.map process) ∧ c.trainEmbedding = true ∧
      ∀ index, c.tokens? index = raw[index]?.map (·.map (vocabularyOf raw).mask) := by
  intro process raw
  have hnone : (ofSettings settings).embedding = none := by
    simp [ofSettings, CorpusSettings.update, CorpusSettings.standard, h]
  obtain ⟨w', hrun⟩ := (preprocessAll_apply (ofSettings settings) first later w).2 hnone
  exact ⟨_, _, w', hrun, rfl, rfl, rfl, rfl, fun index => List.getElem?_map⟩

/-- Where no embedding was given, sentences are embedded by the vocabulary of the first call: as its
ids, which are read back as the sentence with everything masked that this vocabulary does not know.
That is what the current vocabulary says for the sentences to whose tokens both give the same ids,
and for no others. -/
theorem embed_preprocessAll {settings : CorpusSettings} (hsettings : settings.embedding = none)
    (first : List String) (later : List (List String)) (w : Workspace Single) :
    let process := Processor.ofSentence (ofSettings settings).processors
    let raw := (first :: later).flatten.map process
    let held := vocabularyOf (first.map process)
    let now := vocabularyOf raw
    ∃ c e w', (ofSettings settings).preprocessAll (first :: later) w = (.ok c, w') ∧
      c.requireVocabulary = .ok now ∧ c.embedding = some e ∧
      (∀ index, c.tokens? index = raw[index]?.map (·.map now.mask)) ∧
      ∀ index tokens, c.tokens? index = some tokens →
        (WordEmbedding.maxTokens < held.size → ∀ u, (c.embed index : Run Single Tensor) u =
          (.error (.invalidArgument (.vocabularySize held.size)), u)) ∧
        (held.size ≤ WordEmbedding.maxTokens →
          e.tokensOf (held.ids tokens) = .ok (tokens.map held.mask) ∧
          (∀ u, ∃ t u', (c.embed index : Run Single Tensor) u = (.ok t, u') ∧
            u'.value t = held.ids tokens) ∧
          (now.size ≤ WordEmbedding.maxTokens →
            (c.EmbedsBy now index ↔ ∀ t ∈ tokens, held.idOf t = now.idOf t))) := by
  intro process raw held now
  obtain ⟨c, e, w', hrun, hnow, he, hheld, htrain, hall⟩ :=
    preprocessAll_ofSettings hsettings first later w
  have hheld : held = e.vocabulary := hheld.symm
  refine ⟨c, e, w', hrun, hnow, he, hall, ?_⟩
  intro index tokens htokens
  rw [embed_apply htokens he htrain, hheld]
  refine ⟨fun hsize u => WordEmbedding.ids_fails hsize tokens, fun hsize => ⟨?_, ?_, ?_⟩⟩
  · exact WordEmbedding.tokensOf_ids hsize tokens
  · exact WordEmbedding.ids_value hsize tokens
  · intro hnowSize
    have hunknown : e.vocabulary.unknownToken = now.unknownToken := by
      rw [← hheld]
      unfold held now vocabularyOf
      rw [VocabularyRule.unknownToken_build, VocabularyRule.unknownToken_build]
    refine embedsBy_iff htokens he htrain hsize hnowSize ?_ hunknown
    rw [hall, Option.map_eq_some_iff] at htokens
    obtain ⟨sentence, -, rfl⟩ := htokens
    intro t ht
    obtain ⟨s, -, rfl⟩ := List.mem_map.mp ht
    exact now.isKnown_mask s

section Example

private theorem words_first : Processor.ofSentence (ofSettings {}).processors "dog dog cat" =
    ["dog", "dog", "cat"] := by decide +kernel

private theorem words_second : Processor.ofSentence (ofSettings {}).processors "dog cat cat" =
    ["dog", "cat", "cat"] := by decide +kernel

private theorem raw_first : ["dog dog cat"].map (Processor.ofSentence (ofSettings {}).processors) =
    [["dog", "dog", "cat"]] := congrArg (fun words => [words]) words_first

private theorem raw_both : [["dog dog cat"], ["dog cat cat"]].flatten.map
    (Processor.ofSentence (ofSettings {}).processors) =
      [["dog", "dog", "cat"], ["dog", "cat", "cat"]] :=
  congrArg₂ (fun words words' => [words, words']) words_first words_second

private theorem ids_first : (vocabularyOf [["dog", "dog", "cat"]]).ids ["dog", "dog", "cat"] =
    .ofVector [(0 : Single), 0, 0] := by decide +kernel

private theorem masked_both : ["dog", "dog", "cat"].map
    (vocabularyOf [["dog", "dog", "cat"], ["dog", "cat", "cat"]]).mask = ["dog", "dog", "cat"] := by
  rw [funext (mask_vocabularyOf _)]
  decide +kernel

/-- Words that the second call makes known are embedded as unknown. -/
theorem embed_preprocessAll_two :
    ({} : CorpusSettings).embedding = none ∧
    ∃ c e w', (ofSettings {}).preprocessAll [["dog dog cat"], ["dog cat cat"]]
        (.seeded 0 : Workspace Single) = (.ok c, w') ∧
      c.tokens? 0 = some ["dog", "dog", "cat"] ∧ c.embedding = some e ∧
      e.tokensOf (.ofVector [(0 : Single), 0, 0]) = .ok ["<unk>", "<unk>", "<unk>"] ∧
      ∀ u, ∃ t u', (c.embed 0 : Run Single Tensor) u = (.ok t, u') ∧
        u'.value t = .ofVector [0, 0, 0] := by
  refine ⟨rfl, ?_⟩
  obtain ⟨c, e, w', hrun, -, he, hall, hembed⟩ :=
    @embed_preprocessAll {} rfl ["dog dog cat"] [["dog cat cat"]] (.seeded 0)
  have htokens : c.tokens? 0 = some ["dog", "dog", "cat"] := by
    rw [hall, raw_both]
    exact congrArg some masked_both
  rw [raw_first] at hembed
  obtain ⟨hread, hvalue, -⟩ := (hembed 0 _ htokens).2 (by decide +kernel)
  rw [ids_first] at hread hvalue
  refine ⟨c, e, w', hrun, htokens, he, hread.trans ?_, hvalue⟩
  decide +kernel

/-- The ids that the second call leaves are not those of the embedding, which cannot read them. -/
theorem embed_preprocessAll_stale :
    ∃ c w' v, (ofSettings {}).preprocessAll [["dog dog cat"], ["dog cat cat"]]
        (.seeded 0 : Workspace Single) = (.ok c, w') ∧
      c.requireVocabulary = .ok v ∧ ¬ c.EmbedsBy v 0 := by
  obtain ⟨c, ⟨held, width, slot⟩, w', hrun, hnow, he, hheld, -, hall⟩ :=
    @preprocessAll_ofSettings {} rfl ["dog dog cat"] [["dog cat cat"]] (.seeded 0)
  rw [raw_both] at hnow hall
  obtain rfl : held = vocabularyOf [["dog", "dog", "cat"]] := hheld.trans (congrArg _ raw_first)
  refine ⟨c, w', _, hrun, hnow, ?_⟩
  rintro ⟨tokens, e, htokens, he', hread, -⟩
  obtain rfl : _ = e := Option.some.inj (he.symm.trans he')
  obtain rfl : ["dog", "dog", "cat"] = tokens := by
    rw [hall] at htokens
    exact masked_both.symm.trans (Option.some.inj htokens)
  have hunknown : "dog" ∉ (vocabularyOf [["dog", "dog", "cat"]]).tokens := by decide +kernel
  rw [WordEmbedding.tokensOf, mapM_eq_ok_iff, Vocabulary.toList_ids, List.map_cons] at hread
  obtain ⟨hfirst, -⟩ := List.forall₂_cons.mp hread
  obtain ⟨i, -, hi⟩ := Option.bind_eq_some_iff.mp (WordEmbedding.tokenAt_eq_ok_iff.mp hfirst)
  exact hunknown (List.mem_of_getElem? hi)

end Example

end Corpus

end NeuralNet.Text
