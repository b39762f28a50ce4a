import NeuralNet.Text.Vocabulary

/-!
# Tokens and their ids

* `token?_idOf`: the id of a token is the place of the token that stands for it;
* `isKnown_build`: which tokens a vocabulary knows that was made of tokens that were seen.
-/

namespace NeuralNet.Text

namespace Vocabulary

variable {v : Vocabulary} {t : String}

theorem isKnown_iff : v.isKnown t = true ↔ t ∈ v.tokens := List.contains_iff_mem

theorem getElem?_unknownToken (v : Vocabulary) : v.tokens[0]? = some v.unknownToken := by
  rw [unknownToken, List.head_eq_getElem, List.getElem?_eq_getElem]

theorem isKnown_unknownToken (v : Vocabulary) : v.isKnown v.unknownToken = true :=
  isKnown_iff.mpr (List.head_mem v.tokens_ne)

theorem idOf_of_unknown (h : v.isKnown t = false) : v.idOf t = 0 := by
  have hmem : t ∉ v.tokens := by
    rw [← isKnown_iff, h]
    decide
  rw [idOf, List.idxOf?_eq_none_iff.mpr hmem]
  rfl

theorem mask_of_known (h : v.isKnown t = true) : v.mask t = t := if_pos h

theorem isKnown_mask (v : Vocabulary) (t : String) : v.isKnown (v.mask t) = true := by
  unfold mask
  split
  · assumption
  · exact v.isKnown_unknownToken

/-- What a known token is read back as is the token itself, all others are the unknown token. -/
theorem token?_idOf (v : Vocabulary) (t : String) : v.token? (v.idOf t) = some (v.mask t) := by
  cases h : v.isKnown t with
  | false =>
    have hmask : v.mask t = v.unknownToken := if_neg (by rw [h]; decide)
    rw [idOf_of_unknown h, hmask]
    exact v.getElem?_unknownToken
  | true =>
    rw [mask_of_known h, idOf, token?]
    cases hid : v.tokens.idxOf? t with
    | none => exact absurd (isKnown_iff.mp h) (List.idxOf?_eq_none_iff.mp hid)
    | some i =>
      obtain ⟨hlt, hi, -⟩ := List.idxOf?_eq_some_iff.mp hid
      exact List.getElem?_eq_some_iff.mpr ⟨hlt, hi⟩

theorem idOf_lt_size (v : Vocabulary) (t : String) : v.idOf t < v.size :=
  (List.getElem?_eq_some_iff.mp (v.token?_idOf t)).1

/-- Only the unknown token shares its id with what is not known. -/
theorem eq_unknownToken_of_idOf (h : v.isKnown t = true) (hid : v.idOf t = 0) :
    t = v.unknownToken := by
  have hread := v.token?_idOf t
  rw [hid, mask_of_known h, token?, getElem?_unknownToken] at hread
  exact (Option.some.inj hread).symm

/-- What gives the tokens of a vocabulary the same ids as this one knows them. -/
theorem map_mask_of_idOf {held now : Vocabulary} {tokens : List String}
    (hknown : ∀ t ∈ tokens, now.isKnown t = true)
    (hunknown : held.unknownToken = now.unknownToken)
    (h : ∀ t ∈ tokens, held.idOf t = now.idOf t) : tokens.map held.mask = tokens := by
  refine (List.map_congr_left ?_).trans (List.map_id _)
  intro t ht
  change held.mask t = t
  cases hheld : held.isKnown t with
  | true => exact mask_of_known hheld
  | false =>
    have hid := h t ht
    rw [idOf_of_unknown hheld] at hid
    have heq := eq_unknownToken_of_idOf (hknown t ht) hid.symm
    rw [heq, ← hunknown, mask_of_known held.isKnown_unknownToken]

end Vocabulary

namespace VocabularyRule

variable {r : VocabularyRule} {seen : List String} {t : String} {n : Nat}

theorem mem_counts : (t, n) ∈ counts seen ↔ t ∈ seen ∧ seen.count t = n := by
  simp only [counts, List.mem_map, List.mem_eraseDups, Prod.mk.injEq]
  constructor
  · rintro ⟨s, hs, rfl, hn⟩
    exact ⟨hs, hn⟩
  · rintro ⟨ht, hn⟩
    exact ⟨t, ht, rfl, hn⟩

theorem mem_ranked : t ∈ r.ranked seen ↔
    t ∈ seen ∧ r.minFrequency ≤ seen.count t ∧ t ∉ r.base := by
  simp only [ranked, List.mem_map, List.mem_mergeSort, List.mem_filter, Prod.exists]
  constructor
  · rintro ⟨s, n, ⟨hcounts, hkept⟩, rfl⟩
    obtain ⟨hs, rfl⟩ := mem_counts.mp hcounts
    simpa [hs] using hkept
  · rintro ⟨hseen, hcount, hbase⟩
    refine ⟨t, seen.count t, ⟨mem_counts.mpr ⟨hseen, rfl⟩, ?_⟩, rfl⟩
    simpa using ⟨hcount, hbase⟩

theorem base_eq (r : VocabularyRule) : ∃ rest, r.base = r.unknown :: rest := by
  rw [base, List.eraseDups_cons]
  exact ⟨_, rfl⟩

theorem tokens_build (r : VocabularyRule) (seen : List String) : (r.build seen).tokens =
    r.base ++ (r.ranked seen).take (r.maxTokens.getD (r.ranked seen).length) := by
  obtain ⟨rest, hrest⟩ := r.base_eq
  rw [build, hrest]
  rfl

theorem unknownToken_build (r : VocabularyRule) (seen : List String) :
    (r.build seen).unknownToken = r.unknown := by
  obtain ⟨rest, hrest⟩ := r.base_eq
  rw [build, hrest]
  rfl

/-- Without a limit every token is known that was seen often enough. -/
theorem isKnown_build (hmax : r.maxTokens = none) (hmin : 0 < r.minFrequency) :
    (r.build seen).isKnown t = true ↔ t ∈ r.base ∨ r.minFrequency ≤ seen.count t := by
  rw [Vocabulary.isKnown_iff, tokens_build, hmax, Option.getD_none, List.take_length,
    List.mem_append, mem_ranked]
  constructor
  · rintro (hbase | ⟨-, hcount, -⟩)
    · exact .inl hbase
    · exact .inr hcount
  · rintro (hbase | hcount)
    · exact .inl hbase
    · by_cases hbase : t ∈ r.base
      · exact .inl hbase
      · have hseen : t ∈ seen := List.count_pos_iff.mp (Nat.lt_of_lt_of_le hmin hcount)
        exact .inr ⟨hseen, hcount, hbase⟩

end VocabularyRule

end NeuralNet.Text
