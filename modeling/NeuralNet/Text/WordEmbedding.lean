import NeuralNet.Block.Basic
import NeuralNet.Text.Vocabulary

/-!
Embeddings of words. Tokens become ids, and ids become rows of a table that is trained with a model.
-/

namespace NeuralNet.Text

/-- A table with a row for every token of a vocabulary. -/
structure WordEmbedding where
  vocabulary : Vocabulary
  width : Nat
  /-- The parameter that is the table. -/
  slot : Nat

namespace WordEmbedding

/-- The most tokens whose ids are all exact. -/
def maxTokens : Nat := 0x1000000

/-- The block that looks ids up. -/
def block (e : WordEmbedding) : Block := .leaf (.wordEmbedding e.vocabulary.size e.width) [e.slot]

variable {α : Type}

/-- An embedding with a table of its own. -/
def ofVocabulary (vocabulary : Vocabulary) (width : Nat) : Run α WordEmbedding :=
  modifyGet fun w =>
    (⟨vocabulary, width, w.slots.size⟩,
      { w with slots := w.slots.push (.declare "weight" .weight) })

variable [Scalar α]

/-- The ids of tokens. -/
def ids (e : WordEmbedding) (tokens : List String) : Run α Tensor := do
  let size := e.vocabulary.size
  if maxTokens < size then throw (.invalidArgument (.vocabularySize size))
  Run.leaf (.ofVector (tokens.map fun t => Scalar.ofNat (e.vocabulary.idOf t))) false

/-- The rows of tokens. -/
def vectors (e : WordEmbedding) (tokens : List String) : Run α Tensor := do
  let ids ← e.ids tokens
  ids.embedding (← Run.weight e.slot)

/-- The token with an id. -/
def tokenAt (e : WordEmbedding) (id : α) : Except Error String :=
  match (Scalar.toNat? id).bind e.vocabulary.token? with
  | some t => .ok t
  | none => .error (.invalidArgument (.vocabularyId (Scalar.text id) e.vocabulary.size))

/-- The tokens with the ids of an array. -/
def tokensOf (e : WordEmbedding) (ids : DenseArray α) : Except Error (List String) :=
  ids.toList.mapM e.tokenAt

end WordEmbedding

end NeuralNet.Text
