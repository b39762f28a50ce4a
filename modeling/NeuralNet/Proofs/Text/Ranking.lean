import NeuralNet.Proofs.Text.Tally

/-!
# Vocabularies of tokens that were counted

The tokens that were seen often enough are put into a strict order, by their numbers and then as
strings. So a vocabulary depends neither on the order in which tokens came in nor on that of the
table in which they were counted.

* `buildFrom`: the vocabulary of a table;
* `Ranks`: the order of the tokens that were seen;
* `build_canonical`: what stands in a vocabulary and where.
-/

namespace NeuralNet.Text

namespace Vocabulary

variable {v : Vocabulary} {t : String} {i : Nat}

theorem exists_token?_iff : (∃ t, v.token? i = some t) ↔ i < v.size := by
  rw [← Option.isSome_iff_exists, token?, isSome_getElem?, size]

/-- Without repetitions a token has no id but its place. -/
theorem idOf_of_token? (hnodup : v.tokens.Nodup) (h : v.token? i = some t) : v.idOf t = i := by
  have hread := v.token?_idOf t
  rw [mask_of_known (isKnown_iff.mpr (List.mem_of_getElem? h)), ← h] at hread
  exact (List.getElem?_inj (v.idOf_lt_size t) hnodup).mp hread

end Vocabulary

namespace VocabularyRule

variable {r : VocabularyRule} {table table' : Tally} {seen seen' : List String} {s t : String}

/-- The tokens that were counted often enough and are not there already, in their order. -/
def rankedFrom (r : VocabularyRule) (table : Tally) : List String :=
  ((table.filter fun (t, n) => r.minFrequency ≤ n && !r.base.contains t).mergeSort precedes).map
    (·.1)

/-- The vocabulary that a table of counts gives. -/
def buildFrom (r : VocabularyRule) (table : Tally) : Vocabulary :=
  let ranked := r.rankedFrom table
  .ofTokens (r.base ++ ranked.take (r.maxTokens.getD ranked.length))

theorem build_eq_buildFrom (r : VocabularyRule) (seen : List String) :
    r.build seen = r.buildFrom (counts seen) := rfl

/-! ## Order -/

theorem precedes_iff {a b : String × Nat} :
    precedes a b = true ↔ b.2 < a.2 ∨ a.2 = b.2 ∧ a.1 ≤ b.1 := by
  simp [precedes]

theorem precedes_trans (a b c : String × Nat) (h : precedes a b = true)
    (h' : precedes b c = true) : precedes a c = true := by
  rw [precedes_iff] at h h' ⊢
  rcases h with h | ⟨hn, hs⟩ <;> rcases h' with h' | ⟨hn', hs'⟩
  · exact .inl (Nat.lt_trans h' h)
  · exact .inl (hn' ▸ h)
  · exact .inl (hn ▸ h')
  · exact .inr ⟨hn.trans hn', String.le_trans hs hs'⟩

theorem precedes_total (a b : String × Nat) : (precedes a b || precedes b a) = true := by
  rw [Bool.or_eq_true, precedes_iff, precedes_iff]
  rcases Nat.lt_trichotomy a.2 b.2 with h | h | h
  · exact .inr (.inl h)
  · rcases String.le_total a.1 b.1 with hs | hs
    · exact .inl (.inr ⟨h, hs⟩)
    · exact .inr (.inr ⟨h.symm, hs⟩)
  · exact .inl (.inl h)

theorem precedes_antisymm {a b : String × Nat} (h : precedes a b = true)
    (h' : precedes b a = true) : a = b := by
  rw [precedes_iff] at h h'
  have hn : a.2 = b.2 := by omega
  have hs : a.1 ≤ b.1 ∧ b.1 ≤ a.1 := by
    simp only [hn, Nat.lt_irrefl, true_and, false_or] at h h'
    exact ⟨h, h'⟩
  exact Prod.ext (String.le_antisymm hs.1 hs.2) hn

/-- Whatever order a table has, its entries are put into the same one. -/
theorem mergeSort_eq_of_perm (h : table.Perm table') :
    table.mergeSort precedes = table'.mergeSort precedes := by
  have hsorted := List.pairwise_mergeSort precedes_trans precedes_total
  refine List.Perm.eq_of_pairwise (fun a b _ _ => precedes_antisymm) (hsorted _) (hsorted _) ?_
  exact (List.mergeSort_perm _ _).trans (h.trans (List.mergeSort_perm _ _).symm)

theorem buildFrom_eq_of_perm (r : VocabularyRule) (h : table.Perm table') :
    r.buildFrom table = r.buildFrom table' := by
  rw [buildFrom, buildFrom, rankedFrom, rankedFrom, mergeSort_eq_of_perm (h.filter _)]

theorem buildFrom_of_tells (r : VocabularyRule) (h : table.Tells seen') (hseen : seen'.Perm seen) :
    r.buildFrom table = r.build seen := by
  rw [build_eq_buildFrom]
  exact r.buildFrom_eq_of_perm (h.perm (Tally.tells_counts seen) hseen)

/-! ## Tokens -/

/-- Seen more often, or as often and first as strings are ordered. -/
def Ranks (seen : List String) (s t : String) : Prop :=
  seen.count t < seen.count s ∨ seen.count s = seen.count t ∧ s < t

theorem Ranks.ne (h : Ranks seen s t) : s ≠ t := by
  rintro rfl
  rcases h with h | ⟨-, h⟩
  · exact Nat.lt_irrefl _ h
  · exact String.lt_irrefl s h

theorem pairwise_ranked (r : VocabularyRule) (seen : List String) :
    (r.ranked seen).Pairwise (Ranks seen) := by
  have hkeys := (Tally.tells_counts seen).nodup
  have hkept := List.mergeSort_perm
    ((counts seen).filter fun (t, n) => r.minFrequency ≤ n && !r.base.contains t) precedes
  have hdistinct := (hkept.map (·.1)).nodup_iff.mpr ((List.filter_sublist.map _).nodup hkeys)
  have hsorted := List.pairwise_mergeSort precedes_trans precedes_total
    ((counts seen).filter fun (t, n) => r.minFrequency ≤ n && !r.base.contains t)
  refine List.pairwise_map.mpr ?_
  refine (hsorted.and (List.pairwise_map.mp hdistinct)).imp_of_mem ?_
  rintro ⟨s, n⟩ ⟨t, m⟩ hs ht ⟨hprecedes, hne⟩
  obtain ⟨-, rfl⟩ := mem_counts.mp (List.mem_filter.mp (hkept.mem_iff.mp hs)).1
  obtain ⟨-, rfl⟩ := mem_counts.mp (List.mem_filter.mp (hkept.mem_iff.mp ht)).1
  rcases precedes_iff.mp hprecedes with hcount | ⟨hcount, hle⟩
  · exact .inl hcount
  · exact .inr ⟨hcount, String.not_le.mp fun hge => hne (String.le_antisymm hle hge)⟩

/-- The tokens that are there in any case: the unknown one, and then the reserved ones as they first
occur. -/
theorem exists_base (r : VocabularyRule) : ∃ reserved, r.base = r.unknown :: reserved ∧
    (∀ t, t ∈ reserved ↔ t ∈ r.reserved ∧ t ≠ r.unknown) ∧
    reserved.Pairwise fun s t => r.reserved.idxOf s < r.reserved.idxOf t := by
  obtain ⟨reserved, hbase⟩ := r.base_eq
  have hpairwise : r.base.Pairwise _ := pairwise_eraseDups (r.unknown :: r.reserved)
  have hmem : ∀ t, t ∈ r.base ↔ t = r.unknown ∨ t ∈ r.reserved := fun t =>
    List.mem_eraseDups.trans List.mem_cons
  have hnodup : r.base.Nodup := nodup_eraseDups (r.unknown :: r.reserved)
  rw [hbase] at hpairwise hmem hnodup
  obtain ⟨hunknown, -⟩ := List.nodup_cons.mp hnodup
  have hne : ∀ t ∈ reserved, r.unknown ≠ t := by
    rintro _ ht rfl
    exact hunknown ht
  refine ⟨reserved, hbase, fun t => ?_, ?_⟩
  · constructor
    · intro ht
      have hold := (hne t ht).symm
      exact ⟨((hmem t).mp (List.mem_cons_of_mem _ ht)).resolve_left hold, hold⟩
    · rintro ⟨ht, hold⟩
      exact (List.mem_cons.mp ((hmem t).mpr (.inr ht))).resolve_left hold
  · refine (List.pairwise_cons.mp hpairwise).2.imp_of_mem fun {s t} hs ht h => ?_
    rw [List.idxOf_cons_ne _ (hne s hs), List.idxOf_cons_ne _ (hne t ht)] at h
    exact Nat.lt_of_succ_lt_succ h

theorem nodup_tokens_build (r : VocabularyRule) (seen : List String) :
    (r.build seen).tokens.Nodup := by
  have hranked : (r.ranked seen).Nodup :=
    List.nodup_iff_pairwise_ne.mpr ((r.pairwise_ranked seen).imp Ranks.ne)
  rw [tokens_build, List.nodup_append]
  refine ⟨nodup_eraseDups _, (List.take_sublist _ _).nodup hranked, ?_⟩
  rintro t hbase _ htaken rfl
  exact (mem_ranked.mp (List.mem_of_mem_take htaken)).2.2 hbase

/-- A vocabulary depends on how often tokens were seen and on nothing else: neither on their order,
nor on how they were cut into calls, nor on the order of the table in which they were counted. Its
tokens are all different. The unknown token has id 0, the reserved ones follow as they first occur,
and then come as many as there may be of the other tokens that were seen often enough, the more
frequent ones first and equally frequent ones as strings are ordered. Ids and tokens belong to each
other one to one. -/
theorem build_canonical (r : VocabularyRule) (calls : List (List String)) :
    let seen := calls.flatten
    let v := r.build seen
    (∃ table, Tally.AddsAll seen [] table) ∧
    (∀ (calls' : List (List String)) (table : Tally), calls'.flatten.Perm seen →
      Tally.AddsAll calls'.flatten [] table → r.buildFrom table = v) ∧
    (∃ reserved counted : List String,
      v.tokens = r.unknown :: reserved ++ counted.take (r.maxTokens.getD counted.length) ∧
      (∀ t, t ∈ reserved ↔ t ∈ r.reserved ∧ t ≠ r.unknown) ∧
      (reserved.Pairwise fun s t => r.reserved.idxOf s < r.reserved.idxOf t) ∧
      (∀ t, t ∈ counted ↔
        t ∈ seen ∧ r.minFrequency ≤ seen.count t ∧ t ≠ r.unknown ∧ t ∉ r.reserved) ∧
      counted.Pairwise (Ranks seen)) ∧
    v.tokens.Nodup ∧
    (∀ t, v.isKnown t = true → v.token? (v.idOf t) = some t) ∧
    (∀ i, i < v.size → ∃ t, v.token? i = some t ∧ v.isKnown t = true ∧ v.idOf t = i) ∧
    ∀ i, v.size ≤ i → v.token? i = none := by
  intro seen v
  have hnodup : v.tokens.Nodup := r.nodup_tokens_build seen
  refine ⟨Tally.exists_addsAll seen [], fun calls' table hperm hadds => ?_, ?_, hnodup,
    fun t ht => ?_, fun i hi => ?_, fun i hi => List.getElem?_eq_none hi⟩
  · exact r.buildFrom_of_tells (hadds.tells Tally.tells_nil) hperm
  · obtain ⟨reserved, hbase, hreserved, hfirst⟩ := r.exists_base
    refine ⟨reserved, r.ranked seen, ?_, hreserved, hfirst, fun t => ?_, r.pairwise_ranked seen⟩
    · rw [← hbase]
      exact r.tokens_build seen
    · have hout : t ∉ r.base ↔ t ≠ r.unknown ∧ t ∉ r.reserved := by
        rw [base, List.mem_eraseDups, List.mem_cons, not_or]
      rw [mem_ranked, hout]
  · rw [v.token?_idOf, Vocabulary.mask_of_known ht]
  · obtain ⟨t, ht⟩ := Vocabulary.exists_token?_iff.mpr hi
    have hknown := Vocabulary.isKnown_iff.mpr (List.mem_of_getElem? ht)
    exact ⟨t, ht, hknown, Vocabulary.idOf_of_token? hnodup ht⟩

end VocabularyRule

end NeuralNet.Text
