import NeuralNet.Text.Processor
import NeuralNet.Text.WordEmbedding

/-!
Collections of sentences. They are cut into tokens as they come in, and the vocabulary is that of
all sentences so far; what is rare in all of them is masked in all of them.
-/

namespace NeuralNet.Text

/-- What may be set of a collection. -/
structure CorpusSettings where
  processors : Option (List Processor) := none
  embedding : Option WordEmbedding := none
  trainEmbedding : Option Bool := none
  embeddingSize : Option Nat := none

namespace CorpusSettings

def standard : CorpusSettings :=
  { processors := some Processor.standard, trainEmbedding := some false, embeddingSize := some 15 }

/-- Takes over what the other settings set. -/
def update (c other : CorpusSettings) : CorpusSettings where
  processors := other.processors.or c.processors
  embedding := other.embedding.or c.embedding
  trainEmbedding := other.trainEmbedding.or c.trainEmbedding
  embeddingSize := other.embeddingSize.or c.embeddingSize

end CorpusSettings

structure Corpus where
  processors : List Processor
  embedding : Option WordEmbedding
  /-- Whether sentences are given as ids, for an embedding inside of a model. -/
  trainEmbedding : Bool
  /-- The width of an embedding that has to be made. -/
  embeddingSize : Nat
  vocabulary : Option Vocabulary
  /-- All sentences as they came in. -/
  raw : List (List String)
  /-- The same sentences with what is rare masked. -/
  sentences : List (List String)

namespace Corpus

/-- Tokens are known if they are there three times or reserved. -/
def rule : VocabularyRule := { minFrequency := 3, reserved := ["<pad>", "<bos>", "<eos>"] }

/-- An empty collection; what is not set is as in the standard settings. -/
def ofSettings (settings : CorpusSettings) : Corpus :=
  let c := CorpusSettings.standard.update settings
  ⟨c.processors.getD [], c.embedding, c.trainEmbedding.getD false, c.embeddingSize.getD 15, none,
    [], []⟩

def size (c : Corpus) : Nat := c.sentences.length

/-- The vocabulary of some sentences. -/
def vocabularyOf (raw : List (List String)) : Vocabulary := rule.build raw.flatten

/-- Sentences added, and all of them masked by the vocabulary of all of them. -/
def extend (c : Corpus) (texts : List String) : Corpus :=
  let raw := c.raw ++ texts.map (Processor.ofSentence c.processors)
  let vocabulary := vocabularyOf raw
  { c with vocabulary, raw, sentences := raw.map (·.map vocabulary.mask) }

/-- Adds sentences. The first time an embedding is made, unless one was given, for the vocabulary of
that time. -/
def preprocess {α : Type} (c : Corpus) (texts : List String) : Run α Corpus := do
  let c := c.extend texts
  match c.embedding, c.vocabulary with
  | none, some vocabulary =>
    let e ← WordEmbedding.ofVocabulary vocabulary c.embeddingSize
    return { c with embedding := some e, trainEmbedding := true }
  | _, _ => return c

def tokens? (c : Corpus) (index : Nat) : Option (List String) := c.sentences[index]?

def requireVocabulary (c : Corpus) : Except Error Vocabulary :=
  match c.vocabulary with
  | some v => .ok v
  | none => .error (.uninitialized .vocabulary)

/-- A sentence as ids or as rows of the embedding. -/
def embed {α : Type} [Scalar α] (c : Corpus) (index : Nat) : Run α Tensor :=
  match c.tokens? index, c.embedding with
  | none, _ => throw (.invalidArgument (.textIndex index c.size))
  | some _, none => throw (.uninitialized .embedding)
  | some tokens, some e => if c.trainEmbedding then e.ids tokens else e.vectors tokens

end Corpus

end NeuralNet.Text
