/-!
Cutting texts into words. A character either belongs to the word around it, or ends it.
-/

namespace NeuralNet.Text

/-- What a character does to the word that is being read. -/
inductive Part where
  /-- It belongs to the word. -/
  | inside
  /-- It ends the word and is dropped. -/
  | gap
  /-- It ends the word and is a word of its own. -/
  | alone
  deriving DecidableEq, Repr

/-- A word that ends, given backwards; an empty one leaves nothing. -/
def closed : List Char → List (List Char)
  | [] => []
  | word => [word.reverse]

/-- The words of a text, where `word` was read already and is given backwards. -/
def wordsFrom (part : Char → Part) (word : List Char) : List Char → List (List Char)
  | [] => closed word
  | c :: rest =>
    match part c with
    | .inside => wordsFrom part (c :: word) rest
    | .gap => closed word ++ wordsFrom part [] rest
    | .alone => closed word ++ [c] :: wordsFrom part [] rest

def words (part : Char → Part) (text : String) : List String :=
  (wordsFrom part [] text.toList).map String.ofList

/-- White space. -/
def isBlank (c : Char) : Bool :=
  let n := c.toNat
  9 ≤ n && n ≤ 13 || n = 0x20 || n = 0x85 || n = 0xa0 || n = 0x1680 || 0x2000 ≤ n && n ≤ 0x200a ||
    n = 0x2028 || n = 0x2029 || n = 0x202f || n = 0x205f || n = 0x3000

/-- The marks among the ASCII characters: all that show and are no letter or digit. -/
def isMark (c : Char) : Bool :=
  let n := c.toNat
  0x21 ≤ n && n ≤ 0x2f || 0x3a ≤ n && n ≤ 0x40 || 0x5b ≤ n && n ≤ 0x60 || 0x7b ≤ n && n ≤ 0x7e

def blankPart (c : Char) : Part := if isBlank c then .gap else .inside

def markPart (c : Char) : Part := if isMark c then .alone else blankPart c

/-- The parts of a text between white space. -/
def blankSeparated (text : String) : List String := words blankPart text

/-- The same, with every mark a word of its own. -/
def markSeparated (text : String) : List String := words markPart text

end NeuralNet.Text
