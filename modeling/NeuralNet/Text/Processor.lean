import NeuralNet.Text.Lower
import NeuralNet.Text.Words

/-!
Steps that turn one list of tokens into another.
-/

namespace NeuralNet.Text

inductive Processor where
  /-- Cuts tokens at white space. -/
  | tokenizer
  | lower
  /-- Cuts tokens at white space, and makes every mark a token of its own. -/
  | punctuation
  /-- Puts a token before and one behind, where there are such. -/
  | terminator (first last : Option String)
  /-- A step of the caller's own. -/
  | custom (step : List String → List String)

namespace Processor

def apply : Processor → List String → List String
  | tokenizer, tokens => tokens.flatMap blankSeparated
  | lower, tokens => tokens.map Text.lower
  | punctuation, tokens => tokens.flatMap markSeparated
  | terminator first last, tokens => first.toList ++ tokens ++ last.toList
  | custom step, tokens => step tokens

/-- The tokens that a chain of steps makes of some tokens. -/
def applyAll (chain : List Processor) (tokens : List String) : List String :=
  chain.foldl (fun tokens p => p.apply tokens) tokens

/-- The tokens of a sentence, which the first step gets as a single token. -/
def ofSentence (chain : List Processor) (sentence : String) : List String :=
  applyAll chain [sentence]

/-- Marks around a sentence, unless set otherwise. -/
def defaultTerminator : Processor := terminator (some "<bos>") (some "<eos>")

/-- The chain in use unless another one is given. -/
def standard : List Processor := [tokenizer, lower, punctuation]

end Processor

end NeuralNet.Text
