import NeuralNet.Text.Hidden

namespace NeuralNet.Text

/-- A character inside double quotes: the quote and the backslash are escaped, line ends and tabs
have names of their own, and what cannot be seen is given by its code point. -/
def escapedChar (c : Char) : String :=
  if c = '\x00' then "\\0"
  else if c = '\t' then "\\t"
  else if c = '\r' then "\\r"
  else if c = '\n' then "\\n"
  else if c = '\\' then "\\\\"
  else if c = '"' then "\\\""
  else if isHidden c then
    "\\u\x7b" ++ String.ofList (Nat.toDigits 16 c.toNat) ++ "\x7d"
  else c.toString

/-- The text in double quotes. -/
def escaped (text : String) : String := "\"" ++ String.join (text.toList.map escapedChar) ++ "\""

end NeuralNet.Text
