import NeuralNet.Error
import NeuralNet.Json.Reader

/-!
Vocabularies: tokens with their places as ids. The token with id 0 stands for all that are unknown.
-/

namespace NeuralNet.Text

structure Vocabulary where
  tokens : List String
  tokens_ne : tokens ≠ []
  deriving DecidableEq

/-- The token for what is unknown, unless set otherwise. -/
def defaultUnknown : String := "<unk>"

namespace Vocabulary

/-- The first token becomes the one for what is unknown; there always is one. -/
def ofTokens : List String → Vocabulary
  | [] => ⟨[defaultUnknown], by simp⟩
  | t :: rest => ⟨t :: rest, by simp⟩

def size (v : Vocabulary) : Nat := v.tokens.length

def unknownToken (v : Vocabulary) : String := v.tokens.head v.tokens_ne

def unknownId (_ : Vocabulary) : Nat := 0

def isKnown (v : Vocabulary) (token : String) : Bool := v.tokens.contains token

/-- Where a token first stands; the id of the unknown token for what is not there. -/
def idOf (v : Vocabulary) (token : String) : Nat := (v.tokens.idxOf? token).getD v.unknownId

def token? (v : Vocabulary) (id : Nat) : Option String := v.tokens[id]?

/-- A token, or the unknown one in its place. -/
def mask (v : Vocabulary) (token : String) : String :=
  if v.isKnown token then token else v.unknownToken

/-- A vocabulary is written as the list of its tokens. -/
def ofJson? (j : Json) : Option Vocabulary := do
  return ofTokens (← (← j.toList?).mapM Json.toString?)

def parse (text : String) : Except Error Vocabulary :=
  match (Json.parse? text).bind ofJson? with
  | some v => .ok v
  | none => .error .document

end Vocabulary

/-- How a vocabulary is made from tokens that were seen. -/
structure VocabularyRule where
  /-- How often a token has to be seen. -/
  minFrequency : Nat := 1
  /-- How many tokens are taken for having been seen. -/
  maxTokens : Option Nat := none
  /-- Tokens that are always there. -/
  reserved : List String := []
  unknown : String := defaultUnknown
  deriving DecidableEq, Repr

namespace VocabularyRule

/-- The tokens that are there whatever was seen. -/
def base (r : VocabularyRule) : List String := (r.unknown :: r.reserved).eraseDups

/-- How often every token was seen. -/
def counts (seen : List String) : List (String × Nat) :=
  seen.eraseDups.map fun t => (t, seen.count t)

/-- More frequent tokens come first, equally frequent ones in the order of their characters. -/
def precedes (a b : String × Nat) : Bool := b.2 < a.2 || a.2 = b.2 && a.1 ≤ b.1

/-- The tokens that were seen often enough and are not there already, in their order. -/
def ranked (r : VocabularyRule) (seen : List String) : List String :=
  (((counts seen).filter fun (t, n) => r.minFrequency ≤ n && !r.base.contains t).mergeSort
    precedes).map (·.1)

def build (r : VocabularyRule) (seen : List String) : Vocabulary :=
  let ranked := r.ranked seen
  .ofTokens (r.base ++ ranked.take (r.maxTokens.getD ranked.length))

end VocabularyRule

end NeuralNet.Text
