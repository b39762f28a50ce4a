import Mathlib.Data.List.Basic
import NeuralNet.Proofs.Text.Vocabulary

/-!
# Counting tokens

Tokens are counted one after another in a table. In which order the entries of the table stand is
left open, and may be another one after every token.

* `pairwise_eraseDups`: what is left of a list without its repetitions stands in the order of first
  occurrences;
* `Tally.Adds`, `Tally.AddsAll`: a token that is counted, and tokens one after another;
* `Tally.AddsAll.tells`: the entries are the tokens that were counted, each with how often it was.
-/

namespace NeuralNet.Text

/-! ## First occurrences -/

section

variable {α : Type} [BEq α] [LawfulBEq α] {a b : α} {p : α → Bool}

/-- What is kept of a list has the order that it had. -/
theorem idxOf_lt_of_filter {xs : List α} (ha : p a = true) (hb : p b = true)
    (h : (xs.filter p).idxOf a < (xs.filter p).idxOf b) : xs.idxOf a < xs.idxOf b := by
  induction xs with
  | nil => exact h
  | cons x xs ih =>
    by_cases hx : p x = true
    · rw [List.filter_cons_of_pos hx] at h
      by_cases hxb : x = b
      · subst hxb
        rw [List.idxOf_cons_self] at h
        exact absurd h (Nat.not_lt_zero _)
      · by_cases hxa : x = a
        · subst hxa
          rw [List.idxOf_cons_self, List.idxOf_cons_ne _ hxb]
          exact Nat.succ_pos _
        · rw [List.idxOf_cons_ne _ hxa, List.idxOf_cons_ne _ hxb] at h ⊢
          exact Nat.succ_lt_succ (ih (Nat.lt_of_succ_lt_succ h))
    · rw [List.filter_cons_of_neg hx] at h
      have hxa : x ≠ a := fun e => hx (e ▸ ha)
      have hxb : x ≠ b := fun e => hx (e ▸ hb)
      rw [List.idxOf_cons_ne _ hxa, List.idxOf_cons_ne _ hxb]
      exact Nat.succ_lt_succ (ih h)

theorem pairwise_eraseDups (xs : List α) :
    xs.eraseDups.Pairwise fun a b => xs.idxOf a < xs.idxOf b := by
  -- by length, because what follows the first element is a filtered list
  induction hn : xs.length using Nat.strongRecOn generalizing xs with
  | ind n ih =>
    cases xs with
    | nil => exact List.Pairwise.nil
    | cons x xs =>
      have hlength : (xs.filter fun b => !b == x).length < n := by
        rw [← hn, List.length_cons]
        exact Nat.lt_succ_of_le (List.length_filter_le _ _)
      have hne : ∀ b ∈ (xs.filter fun b => !b == x).eraseDups, (!b == x) = true := fun b hb =>
        (List.mem_filter.mp (List.mem_eraseDups.mp hb)).2
      have hx : ∀ {b : α}, (!b == x) = true → x ≠ b := by
        rintro _ h rfl
        simp at h
      rw [List.eraseDups_cons]
      refine List.pairwise_cons.mpr ⟨fun b hb => ?_, ?_⟩
      · rw [List.idxOf_cons_self, List.idxOf_cons_ne _ (hx (hne b hb))]
        exact Nat.succ_pos _
      · refine (ih _ hlength _ rfl).imp_of_mem fun {a b} ha hb h => ?_
        rw [List.idxOf_cons_ne _ (hx (hne a ha)), List.idxOf_cons_ne _ (hx (hne b hb))]
        exact Nat.succ_lt_succ (idxOf_lt_of_filter (hne a ha) (hne b hb) h)

theorem nodup_eraseDups (xs : List α) : xs.eraseDups.Nodup := by
  refine List.nodup_iff_pairwise_ne.mpr ((pairwise_eraseDups xs).imp ?_)
  rintro a _ h rfl
  exact Nat.lt_irrefl _ h

end

/-! ## Tables -/

/-- How often tokens were seen, in any order. -/
abbrev Tally := List (String × Nat)

namespace Tally

/-- A token is counted: it enters the table with 1, or its number is raised. -/
inductive Adds (t : String) (table table' : Tally) : Prop where
  | first (hnew : t ∉ table.map (·.1)) (hperm : table'.Perm ((t, 1) :: table))
  | again {n : Nat} {rest : Tally} (hold : table.Perm ((t, n) :: rest))
    (hperm : table'.Perm ((t, n + 1) :: rest))

/-- Tokens are counted one after another. -/
inductive AddsAll : List String → Tally → Tally → Prop where
  | nil (table : Tally) : AddsAll [] table table
  | cons {t : String} {rest : List String} {table table₁ table' : Tally} :
    Adds t table table₁ → AddsAll rest table₁ table' → AddsAll (t :: rest) table table'

/-- The table tells of every token that was seen how often it was. -/
structure Tells (table : Tally) (seen : List String) : Prop where
  nodup : (table.map (·.1)).Nodup
  mem_iff : ∀ s n, (s, n) ∈ table ↔ s ∈ seen ∧ seen.count s = n

variable {t : String} {table table' : Tally} {seen seen' tokens : List String}

theorem exists_adds (t : String) (table : Tally) : ∃ table', Adds t table table' := by
  by_cases h : t ∈ table.map (·.1)
  · obtain ⟨⟨s, n⟩, hmem, rfl⟩ := List.mem_map.mp h
    exact ⟨_, .again (List.perm_cons_erase hmem) (.refl _)⟩
  · exact ⟨_, .first h (.refl _)⟩

theorem exists_addsAll (tokens : List String) (table : Tally) :
    ∃ table', AddsAll tokens table table' := by
  induction tokens generalizing table with
  | nil => exact ⟨table, .nil table⟩
  | cons t tokens ih =>
    obtain ⟨table₁, hfirst⟩ := exists_adds t table
    obtain ⟨table', hrest⟩ := ih table₁
    exact ⟨table', .cons hfirst hrest⟩

theorem tells_nil : Tells [] [] := ⟨List.Pairwise.nil, by simp⟩

theorem tells_counts (seen : List String) : Tells (VocabularyRule.counts seen) seen := by
  refine ⟨?_, fun s n => VocabularyRule.mem_counts⟩
  have hkeys : (VocabularyRule.counts seen).map (·.1) = seen.eraseDups := by
    simp [VocabularyRule.counts, Function.comp_def]
  rw [hkeys]
  exact nodup_eraseDups seen

theorem Tells.mem_keys (h : Tells table seen) : t ∈ table.map (·.1) ↔ t ∈ seen := by
  simp only [List.mem_map, Prod.exists, exists_and_right, exists_eq_right, h.mem_iff]
  exact ⟨fun ⟨_, hseen, _⟩ => hseen, fun hseen => ⟨_, hseen, rfl⟩⟩

theorem mem_rest {n m : Nat} {s : String} {rest : Tally}
    (hnodup : (((t, n) :: rest).map (·.1)).Nodup) :
    (s, m) ∈ rest ↔ s ≠ t ∧ (s, m) ∈ (t, n) :: rest := by
  have hrest : t ∉ rest.map (·.1) := (List.nodup_cons.mp hnodup).1
  constructor
  · intro h
    refine ⟨?_, List.mem_cons_of_mem _ h⟩
    rintro rfl
    exact hrest (List.mem_map_of_mem h)
  · rintro ⟨hne, h⟩
    exact (List.mem_cons.mp h).resolve_left fun e => hne (Prod.mk.inj e).1

/-- One token more is told. -/
theorem Adds.tells (hadds : Adds t table table') (h : Tells table seen) :
    Tells table' (seen ++ [t]) := by
  have hcount : ∀ s, (seen ++ [t]).count s = seen.count s + if t = s then 1 else 0 := by
    intro s
    rw [List.count_append, List.count_singleton]
    simp only [beq_iff_eq]
  have hmem : ∀ s, s ∈ seen ++ [t] ↔ s = t ∨ s ∈ seen := by
    intro s
    rw [List.mem_append, List.mem_singleton, or_comm]
  cases hadds with
  | first hnew hperm =>
    have hunseen : t ∉ seen := fun hseen => hnew (h.mem_keys.mpr hseen)
    refine ⟨(hperm.map _).nodup_iff.mpr (List.nodup_cons.mpr ⟨hnew, h.nodup⟩), fun s n => ?_⟩
    rw [hperm.mem_iff, List.mem_cons, h.mem_iff, hmem, hcount, Prod.mk.injEq]
    by_cases hs : s = t
    · subst hs
      simp [hunseen, List.count_eq_zero.mpr hunseen, eq_comm]
    · simp [hs, Ne.symm hs]
  | @again n rest hold hperm =>
    have hnodup := (hold.map _).nodup_iff.mp h.nodup
    obtain ⟨hseen, hn⟩ := (h.mem_iff t n).mp (hold.mem_iff.mpr List.mem_cons_self)
    refine ⟨(hperm.map _).nodup_iff.mpr hnodup, fun s m => ?_⟩
    rw [hperm.mem_iff, List.mem_cons, mem_rest hnodup, ← hold.mem_iff, h.mem_iff, hmem, hcount,
      Prod.mk.injEq]
    by_cases hs : s = t
    · subst hs
      simp [hn, eq_comm]
    · simp [hs, Ne.symm hs]

theorem AddsAll.tells (hadds : AddsAll tokens table table') (h : Tells table seen) :
    Tells table' (seen ++ tokens) := by
  induction hadds generalizing seen with
  | nil table => rwa [List.append_nil]
  | @cons t rest table table₁ table' hfirst _ ih =>
    have hrest := ih (hfirst.tells h)
    rwa [List.append_assoc, List.singleton_append] at hrest

/-- Tables that tell of the same tokens differ in their order only. -/
theorem Tells.perm (h : Tells table seen) (h' : Tells table' seen') (hseen : seen.Perm seen') :
    table.Perm table' := by
  have hnodup : ∀ {table : Tally}, (table.map (·.1)).Nodup → table.Nodup := fun hkeys =>
    (List.pairwise_map.mp hkeys).imp fun hne e => hne (congrArg _ e)
  refine (List.perm_ext_iff_of_nodup (hnodup h.nodup) (hnodup h'.nodup)).mpr fun ⟨s, n⟩ => ?_
  rw [h.mem_iff, h'.mem_iff, hseen.mem_iff, hseen.count_eq]

end Tally

end NeuralNet.Text
