import NeuralNet.Json.Value

/-!
Reading a document: one value, with blanks around it and nothing else. Numbers have no leading zero
and no bare point; strings have no control character. What is well formed but has no value is read
as unreadable. Containers that are not closed yet lie on a stack, so that none is too deep to pass.
-/

namespace NeuralNet.Json

abbrev Input := List Char

def isBlank (c : Char) : Bool := c = ' ' || c = '\n' || c = '\t' || c = '\r'

def skipBlanks (cs : Input) : Input := cs.dropWhile isBlank

def isDigit (c : Char) : Bool := '0' ≤ c && c ≤ '9'

/-- The leading digits and what follows them. -/
def digits (cs : Input) : List Nat × Input :=
  ((cs.takeWhile isDigit).map fun d => d.toNat - 48, cs.dropWhile isDigit)

/-- The digits of a whole part: one zero, or digits without a zero in front. -/
def wholePart? (cs : Input) : Option (List Nat × Input) :=
  match digits cs with
  | ([], _) => none
  | (0 :: _ :: _, _) => none
  | r => some r

def fraction? : Input → Option (List Nat × Input)
  | '.' :: cs =>
    match digits cs with
    | ([], _) => none
    | r => some r
  | cs => some ([], cs)

/-- A power of ten with its sign. Digits that 64 bits do not hold change nothing any more. -/
def signedDigits? (sign : Int) (cs : Input) : Option (Int × Input) :=
  match digits cs with
  | ([], _) => none
  | (ds, rest) => some (sign * (WrittenNumber.append ds 0 0).1, rest)

/-- The power of ten, if one is written. -/
def exponent? : Input → Option (Option Int × Input)
  | c :: cs =>
    if c = 'e' ∨ c = 'E' then
      let r :=
        match cs with
        | '+' :: cs => signedDigits? 1 cs
        | '-' :: cs => signedDigits? (-1) cs
        | cs => signedDigits? 1 cs
      r.map fun (e, rest) => (some e, rest)
    else some (none, c :: cs)
  | [] => some (none, [])

def unsigned? (negative : Bool) (cs : Input) : Option (WrittenNumber × Input) := do
  let (whole, cs) ← wholePart? cs
  let (fraction, cs) ← fraction? cs
  let (exponent, cs) ← exponent? cs
  return (⟨negative, whole, fraction, exponent⟩, cs)

def written? : Input → Option (WrittenNumber × Input)
  | '-' :: cs => unsigned? true cs
  | cs => unsigned? false cs

def ofWritten (w : WrittenNumber) : Json :=
  match Numeral.ofWritten? w with
  | some n => .number n
  | none => .unreadable

def hexDigit? (c : Char) : Option Nat :=
  if '0' ≤ c && c ≤ '9' then some (c.toNat - 48)
  else if 'a' ≤ c && c ≤ 'f' then some (c.toNat - 87)
  else if 'A' ≤ c && c ≤ 'F' then some (c.toNat - 55)
  else none

def hexUnit? : Input → Option (Nat × Input)
  | a :: b :: c :: d :: rest => do
    return (((← hexDigit? a) * 16 + (← hexDigit? b)) * 256 + (← hexDigit? c) * 16 + (← hexDigit? d),
      rest)
  | _ => none

/-- The second half of a surrogate pair, if it comes next. -/
def lowHalf? : Input → Option (Nat × Input)
  | '\\' :: 'u' :: cs =>
    match hexUnit? cs with
    | some (low, rest) => if 0xdc00 ≤ low ∧ low < 0xe000 then some (low, rest) else none
    | none => none
  | _ => none

/-- The character after `\u`; two halves of a surrogate pair make one, and one half makes none. -/
def unicode? (cs : Input) : Option (Option Char × Input) := do
  let (high, rest) ← hexUnit? cs
  if high < 0xd800 ∨ 0xe000 ≤ high then some (some (Char.ofNat high), rest)
  else if 0xdc00 ≤ high then some (none, rest)
  else
    match lowHalf? rest with
    | some (low, rest) =>
      some (some (Char.ofNat (0x10000 + (high - 0xd800) * 1024 + (low - 0xdc00))), rest)
    | none => some (none, rest)

def escape? : Input → Option (Option Char × Input)
  | '"' :: cs => some ('"', cs)
  | '\\' :: cs => some ('\\', cs)
  | '/' :: cs => some ('/', cs)
  | 'b' :: cs => some ('\x08', cs)
  | 'f' :: cs => some ('\x0c', cs)
  | 'n' :: cs => some ('\n', cs)
  | 'r' :: cs => some ('\r', cs)
  | 't' :: cs => some ('\t', cs)
  | 'u' :: cs => unicode? cs
  | _ => none

/-- What comes before the closing quote, if all of it is characters; `fuel` bounds their number. -/
def characters? :
    (fuel : Nat) → (read : Option (List Char)) → Input → Option (Option String × Input)
  | 0, _, _ => none
  | fuel + 1, read, cs =>
    match cs with
    | [] => none
    | '"' :: rest => some (read.map fun cs => String.ofList cs.reverse, rest)
    | '\\' :: rest =>
      match escape? rest with
      | some (some c, rest) => characters? fuel (read.map (c :: ·)) rest
      | some (none, rest) => characters? fuel none rest
      | none => none
    | c :: rest => if c.toNat < 32 then none else characters? fuel (read.map (c :: ·)) rest

/-- A string after its opening quote. -/
def text? (fuel : Nat) (cs : Input) : Option (Option String × Input) :=
  characters? fuel (some []) cs

def ofText : Option String → Json
  | some s => .string s
  | none => .unreadable

def literal? (word : List Char) (value : Json) (cs : Input) : Option (Json × Input) :=
  if word.isPrefixOf cs then some (value, cs.drop word.length) else none

/-- A value that is no container. -/
def simple? (fuel : Nat) : Input → Option (Json × Input)
  | 'n' :: cs => literal? ['u', 'l', 'l'] .null cs
  | 't' :: cs => literal? ['r', 'u', 'e'] (.bool true) cs
  | 'f' :: cs => literal? ['a', 'l', 's', 'e'] (.bool false) cs
  | '"' :: cs => (text? fuel cs).map fun (s, rest) => (ofText s, rest)
  | cs => (written? cs).map fun (w, rest) => (ofWritten w, rest)

/-- The name of a member and the colon behind it. -/
def name? (fuel : Nat) (cs : Input) : Option (Option String × Input) :=
  match skipBlanks cs with
  | '"' :: cs =>
    match text? fuel cs with
    | none => none
    | some (name, cs) =>
      match skipBlanks cs with
      | ':' :: cs => some (name, cs)
      | _ => none
  | _ => none

/-- A container that is not closed yet: what it holds so far, the last first, and the name of the
member that comes next. -/
inductive Unclosed where
  | array (items : List Json)
  | object (members : Option (List (String × Json))) (name : Option String)

def Unclosed.add (value : Json) : Unclosed → Unclosed
  | array items => array (value :: items)
  | object members name => object (do return (← name, value) :: (← members)) none

def Unclosed.close : Unclosed → Json
  | array items => .array items.reverse
  | object (some members) _ => .object members.reverse
  | object none _ => .unreadable

/-- How many containers may lie inside each other. -/
def maxDepth : Nat := 127

/-- A container that was closed, inside those of a stack. -/
def closedIn (stack : List Unclosed) (container : Unclosed) : Json :=
  if (stack.drop (maxDepth - 1)).isEmpty then container.close else .unreadable

/-- Reads to the end of the outermost container of a stack, or of the one value if the stack is
empty. What was just read is `value`; if there is none, a value comes next. Every step but the last
takes a character, so that `fuel` bounds the steps and the length of every string. -/
def readOn? : (fuel : Nat) → List Unclosed → (value : Option Json) → Input → Option (Json × Input)
  | 0, _, _, _ => none
  | fuel + 1, stack, none, cs =>
    match skipBlanks cs with
    | '[' :: cs =>
      match skipBlanks cs with
      | ']' :: cs => readOn? fuel stack (closedIn stack (.array [])) cs
      | cs => readOn? fuel (.array [] :: stack) none cs
    | '{' :: cs =>
      match skipBlanks cs with
      | '}' :: cs => readOn? fuel stack (closedIn stack (.object (some []) none)) cs
      | cs =>
        match name? fuel cs with
        | some (name, cs) => readOn? fuel (.object (some []) name :: stack) none cs
        | none => none
    | cs =>
      match simple? fuel cs with
      | some (value, cs) => readOn? fuel stack value cs
      | none => none
  | _ + 1, [], some value, cs => some (value, cs)
  | fuel + 1, container :: stack, some value, cs =>
    match skipBlanks cs, container.add value with
    | ',' :: cs, .array items => readOn? fuel (.array items :: stack) none cs
    | ',' :: cs, .object members _ =>
      match name? fuel cs with
      | some (name, cs) => readOn? fuel (.object members name :: stack) none cs
      | none => none
    | ']' :: cs, .array items => readOn? fuel stack (closedIn stack (.array items)) cs
    | '}' :: cs, .object members name =>
      readOn? fuel stack (closedIn stack (.object members name)) cs
    | _, _ => none

/-- The document that a text is. -/
def parse? (text : String) : Option Json :=
  let cs := text.toList
  match readOn? (cs.length + 1) [] none cs with
  | some (value, rest) => if (skipBlanks rest).isEmpty then some value else none
  | none => none

end NeuralNet.Json
