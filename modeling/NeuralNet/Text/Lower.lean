import NeuralNet.Text.Case

/-!
Lower case of whole texts, where a letter may depend on the letters around it.
-/

namespace NeuralNet.Text

/-- Whether a letter with a case comes first, ignorable characters aside. -/
def startsCased (cs : List Char) : Bool := (cs.dropWhile isCaseIgnorable).head?.any isCased

/-- The lower case of a letter. A sigma at the end of a word has a form of its own, and an I with a
dot keeps the dot. -/
def lowerAt (before : List Char) (c : Char) (rest : List Char) : List Char :=
  if c = 'Σ' then [if startsCased before && !startsCased rest then 'ς' else 'σ']
  else if c = 'İ' then ['i', '\u0307']
  else [lowerChar c]

/-- The lower case of what follows `before`, which is given backwards. -/
def lowerFrom (before : List Char) : List Char → List Char
  | [] => []
  | c :: rest => lowerAt before c rest ++ lowerFrom (c :: before) rest

def lower (text : String) : String := String.ofList (lowerFrom [] text.toList)

end NeuralNet.Text
