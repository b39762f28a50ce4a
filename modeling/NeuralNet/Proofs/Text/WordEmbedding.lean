import NeuralNet.Proofs.Block.Forward
import NeuralNet.Proofs.Checks
import NeuralNet.Proofs.Layer.Operations
import NeuralNet.Proofs.Number.Single
import NeuralNet.Proofs.Tape.Accepted
import NeuralNet.Proofs.Text.Vocabulary
import NeuralNet.Text.WordEmbedding

/-!
# Tokens as ids and as rows

Ids are numbers of single precision. Every id of a vocabulary that is not too large is exact, so
that it is read back as its token and finds its row.

* `tokensOf_ids`: tokens by way of their ids;
* `extents_of_resolve`, `vectors_apply`: the table and what is looked up in it;
* `ids_and_vectors`: both ways that ids are read.
-/

namespace NeuralNet.Text

/-! ## Ids as numbers -/

/-- The array of the ids that a vocabulary gives tokens. -/
def Vocabulary.ids (v : Vocabulary) (tokens : List String) : DenseArray Single :=
  .ofVector (tokens.map fun t => Single.ofNat (v.idOf t))

theorem Vocabulary.toList_ids (v : Vocabulary) (tokens : List String) :
    (v.ids tokens).toList = tokens.map fun t => Single.ofNat (v.idOf t) := by
  simp [ids, DenseArray.ofVector, DenseArray.toList]

theorem toNat?_ofNat {n : Nat} (h : n < WordEmbedding.maxTokens) :
    (Single.ofNat n).toNat? = some n := by
  have hsame := Single.same_ofInt (i := n) h
  rw [Single.toNat?, Single.ofNat, Single.toInt?_of_same hsame]

theorem Vocabulary.toNat?_idOf {v : Vocabulary} (h : v.size ≤ WordEmbedding.maxTokens)
    (t : String) : Scalar.toNat? (Single.ofNat (v.idOf t)) = some (v.idOf t) :=
  toNat?_ofNat (Nat.lt_of_lt_of_le (v.idOf_lt_size t) h)

theorem Vocabulary.ids_inj {v v' : Vocabulary} {tokens : List String}
    (h : v.size ≤ WordEmbedding.maxTokens) (h' : v'.size ≤ WordEmbedding.maxTokens) :
    v.ids tokens = v'.ids tokens ↔ ∀ t ∈ tokens, v.idOf t = v'.idOf t := by
  constructor
  · intro hids t ht
    have hlists := congrArg DenseArray.toList hids
    rw [toList_ids, toList_ids] at hlists
    have hread : Scalar.toNat? (Single.ofNat (v.idOf t)) = Scalar.toNat? _ :=
      congrArg _ (List.map_inj_left.mp hlists t ht)
    rw [toNat?_idOf h, toNat?_idOf h'] at hread
    exact Option.some.inj hread
  · intro hids
    unfold ids
    rw [List.map_congr_left fun t ht => congrArg Single.ofNat (hids t ht)]

/-- What reads each id as something reads the ids of tokens as a list of such. -/
theorem Vocabulary.mapM_ids {β : Type} {v : Vocabulary} {read : Single → Except Error β}
    {f : String → β} (h : ∀ t, read (Single.ofNat (v.idOf t)) = .ok (f t)) (tokens : List String) :
    (v.ids tokens).toList.mapM read = .ok (tokens.map f) := by
  rw [mapM_eq_ok_iff, toList_ids, List.forall₂_map_left_iff, List.forall₂_map_right_iff,
    List.forall₂_same]
  exact fun t _ => h t

/-- An id names its row. -/
theorem Vocabulary.rowId_idOf {v : Vocabulary} (h : v.size ≤ WordEmbedding.maxTokens)
    (t : String) : Tensor.rowId v.size (Single.ofNat (v.idOf t)) = .ok (v.idOf t) :=
  Rearrangement.rowId_eq_ok.mpr ⟨toNat?_idOf h t, v.idOf_lt_size t⟩

theorem Vocabulary.extents_ids (v : Vocabulary) (tokens : List String) :
    (v.ids tokens).extents = [tokens.length] := by
  simp [ids, DenseArray.ofVector]

namespace WordEmbedding

variable {e : WordEmbedding} {u : Workspace Single}

theorem ids_apply (h : e.vocabulary.size ≤ maxTokens) (tokens : List String) :
    e.ids tokens u = (.ok (.node u.nodes.size),
      { u with nodes := u.nodes.push ⟨e.vocabulary.ids tokens, none, false, none⟩ }) := by
  unfold WordEmbedding.ids
  simp only [if_neg (Nat.not_lt.mpr h)]
  rfl

theorem ids_value (h : e.vocabulary.size ≤ maxTokens) (tokens : List String)
    (u : Workspace Single) :
    ∃ t u', e.ids tokens u = (.ok t, u') ∧ u'.value t = e.vocabulary.ids tokens :=
  ⟨_, _, ids_apply h tokens, by simp [Workspace.value]⟩

theorem ids_fails (h : maxTokens < e.vocabulary.size) (tokens : List String) :
    e.ids tokens u = (.error (.invalidArgument (.vocabularySize e.vocabulary.size)), u) := by
  unfold WordEmbedding.ids
  simp only [if_pos h]
  rfl

theorem tokenAt_eq_ok_iff {α : Type} [Scalar α] {id : α} {t : String} :
    e.tokenAt id = .ok t ↔ (Scalar.toNat? id).bind e.vocabulary.token? = some t := by
  unfold tokenAt
  split <;> simp [*]

/-- An id is read back as its token. -/
theorem tokenAt_idOf (h : e.vocabulary.size ≤ maxTokens) (t : String) :
    e.tokenAt (Single.ofNat (e.vocabulary.idOf t)) = .ok (e.vocabulary.mask t) := by
  rw [tokenAt_eq_ok_iff, Vocabulary.toNat?_idOf h, Option.bind_some, Vocabulary.token?_idOf]

theorem tokensOf_ids (h : e.vocabulary.size ≤ maxTokens) (tokens : List String) :
    e.tokensOf (e.vocabulary.ids tokens) = .ok (tokens.map e.vocabulary.mask) :=
  Vocabulary.mapM_ids (tokenAt_idOf h) tokens

/-! ## Rows -/

/-- However a table gets its first values, it has a row for every token. -/
theorem extents_of_resolve {fallback : Initializer} {inputs outputs : List Shape}
    {w₀ w₁ : Workspace Single} (hslot : e.slot < w₀.slots.size)
    (h : e.block.resolve fallback inputs w₀ = (.ok outputs, w₁)) :
    w₁.extents? (.weight e.slot) = some [e.vocabulary.size, e.width] := by
  have hvalid : ∀ i ∈ e.block.slots, i < w₀.slots.size := by
    intro i hi
    rwa [List.mem_singleton.mp hi]
  obtain ⟨plan, hplan, hmodels⟩ := Block.models_of_resolve hvalid h fun _ _ => rfl
  have hplanned : e.block.plan inputs = .ok [(e.slot, [e.vocabulary.size, e.width])] := rfl
  cases hplan.symm.trans hplanned
  exact hmodels (.weight e.slot, _) (List.mem_singleton.mpr rfl)

/-- Looking tokens up is picking the rows that their ids name. -/
theorem vectors_apply (h : e.vocabulary.size ≤ maxTokens)
    (hw : u.extents? (.weight e.slot) = some [e.vocabulary.size, e.width]) (tokens : List String) :
    ∃ u', e.vectors tokens u =
      (Run.check (Rearrangement.rows (tokens.map e.vocabulary.idOf).toArray [tokens.length]
          e.width) >>= fun r =>
        Run.record (.rearrange (.weight e.slot) [e.vocabulary.size, e.width] r)
          ((u.value (.weight e.slot)).rearrange r)) u' := by
  let n : Node Single := ⟨e.vocabulary.ids tokens, none, false, none⟩
  let u' : Workspace Single := { u with nodes := u.nodes.push n }
  have hw' : u'.extents? (.weight e.slot) = some [e.vocabulary.size, e.width] :=
    Workspace.extents?_push u n hw
  have hids : u'.value (.node u.nodes.size) = e.vocabulary.ids tokens := by
    simp [Workspace.value, u', n]
  refine ⟨u', ?_⟩
  unfold vectors
  rw [Run.bind_of_ok (ids_apply h tokens), Run.bind_of_ok (Run.weight_apply hw'),
    Run.embedding_apply (Workspace.extents_value hw'), hids, Vocabulary.mapM_ids (Vocabulary.rowId_idOf h),
    Run.bind_of_ok (Run.check_apply (.ok _) _), Vocabulary.extents_ids]
  rfl

theorem get_rows {v : Vocabulary} {tokens : List String} {width i k : Nat} {t : String}
    {a : DenseArray Single} {r : Rearrangement}
    (hr : Rearrangement.rows (tokens.map v.idOf).toArray [tokens.length] width = .ok r)
    (hi : tokens[i]? = some t) (hk : k < width) :
    (a.rearrange r).get [i, k] = a.get [v.idOf t, k] := by
  obtain ⟨-, rfl⟩ := Rearrangement.rows_eq_ok_iff.mp hr
  obtain ⟨hlt, rfl⟩ := List.getElem?_eq_some_iff.mp hi
  have hcontains : Extents.Contains [tokens.length, width] [i, k] := ⟨hlt, hk, trivial⟩
  refine (DenseArray.get_gather hcontains _ _).trans ?_
  simp [Extents.ravel, Extents.size, hlt]

/-- Tokens become ids that are read back as the tokens, those that are not known as the unknown one.
Once the table has its first values, every id finds its row there: the vectors of tokens are the
rows of their ids, as long as they can be addressed together, and no id is rejected. -/
theorem ids_and_vectors (e : WordEmbedding) (hsize : e.vocabulary.size ≤ maxTokens)
    (tokens : List String) :
    (∀ w : Workspace Single, ∃ t w', e.ids tokens w = (.ok t, w') ∧
      (w'.value t).extents = [tokens.length] ∧
      e.tokensOf (w'.value t) = .ok (tokens.map e.vocabulary.mask)) ∧
    (∀ fallback inputs outputs, ∀ w₀ w₁ : Workspace Single, e.slot < w₀.slots.size →
      e.block.resolve fallback inputs w₀ = (.ok outputs, w₁) →
      w₁.extents? (.weight e.slot) = some [e.vocabulary.size, e.width]) ∧
    ∀ w : Workspace Single,
      w.extents? (.weight e.slot) = some [e.vocabulary.size, e.width] →
      (Extents.addressable [tokens.length, e.width] = true →
        ∃ y w', e.vectors tokens w = (.ok y, w') ∧
          (w'.value y).extents = [tokens.length, e.width] ∧
          ∀ i t k, tokens[i]? = some t → k < e.width →
            (w'.value y).get [i, k] =
              (w.value (.weight e.slot)).get [e.vocabulary.idOf t, k]) ∧
      ∀ id rows, (e.vectors tokens w).1 ≠ .error (.invalidArgument (.embeddingId id rows)) := by
  refine ⟨fun w => ?_, fun _ _ _ _ _ hslot h => extents_of_resolve hslot h, fun w hw => ⟨?_, ?_⟩⟩
  · obtain ⟨t, w', hrun, hvalue⟩ := ids_value hsize tokens w
    refine ⟨t, w', hrun, ?_, ?_⟩
    · rw [hvalue, Vocabulary.extents_ids]
    · rw [hvalue, tokensOf_ids hsize]
  · intro hroom
    have hr : Rearrangement.rows (tokens.map e.vocabulary.idOf).toArray [tokens.length] e.width =
        .ok _ := Rearrangement.rows_eq_ok_iff.mpr ⟨hroom, rfl⟩
    obtain ⟨u, hrun⟩ := vectors_apply hsize hw tokens
    rw [hr, Run.bind_of_ok (Run.check_apply (.ok _) _)] at hrun
    refine ⟨_, _, hrun.trans (Run.record_apply _ _ _), ?_, fun i t k hi hk => ?_⟩
    · rw [Run.value_record (Run.record_apply _ _ _)]
      rfl
    · rw [Run.value_record (Run.record_apply _ _ _)]
      exact get_rows hr hi hk
  · intro id rows
    obtain ⟨u, hrun⟩ := vectors_apply hsize hw tokens
    rw [hrun]
    unfold Rearrangement.rows
    split <;> exact nofun

/-- A word that stands twice in a vocabulary has the row of its first place. -/
theorem ids_and_vectors_repeated :
    let e : WordEmbedding := ⟨.ofTokens ["<unk>", "the", "cat", "the"], 2, 0⟩
    let tokens := ["the", "dog", "cat"]
    let table : DenseArray Single :=
      ⟨[4, 2], #[0, 1, .ofNat 2, .ofNat 3, .ofNat 4, .ofNat 5, .ofNat 6, .ofNat 7], rfl⟩
    let w : Workspace Single :=
      { Workspace.seeded 0 with
        slots := #[⟨"weight", .weight, true, none, some ⟨.float32, table, none, true⟩⟩] }
    e.vocabulary.size ≤ maxTokens ∧
      (∃ t w', e.ids tokens w = (.ok t, w') ∧
        e.tokensOf (w'.value t) = .ok ["the", "<unk>", "cat"]) ∧
      ∃ y w', e.vectors tokens w = (.ok y, w') ∧ (w'.value y).extents = [3, 2] ∧
        (w'.value y).get [0, 1] = .ofNat 3 ∧ (w'.value y).get [1, 1] = 1 ∧
        (w'.value y).get [2, 0] = .ofNat 4 := by
  intro e tokens table w
  have hsize : e.vocabulary.size ≤ maxTokens := by decide
  obtain ⟨hids, -, hvectors⟩ := ids_and_vectors e hsize tokens
  have hw : w.extents? (.weight e.slot) = some [e.vocabulary.size, e.width] := by decide +kernel
  obtain ⟨y, w', hrun, hextents, hrows⟩ := (hvectors w hw).1 (by decide +kernel)
  refine ⟨hsize, ?_, y, w', hrun, hextents, ?_, ?_, ?_⟩
  · obtain ⟨t, w₁, hmade, -, hread⟩ := hids w
    exact ⟨t, w₁, hmade, hread.trans (by decide +kernel)⟩
  · exact (hrows 0 "the" 1 rfl (by decide)).trans (by decide +kernel)
  · exact (hrows 1 "dog" 1 rfl (by decide)).trans (by decide +kernel)
  · exact (hrows 2 "cat" 0 rfl (by decide)).trans (by decide +kernel)

end WordEmbedding

end NeuralNet.Text
