import NeuralNet.Json.Value

/-!
Documents as forms. A form is an object with known names, in any order and among others, or an array
with the same fields in their fixed order. A tagged form says first, or under `type`, which of
several forms it is.
-/

namespace NeuralNet.Json

mutual

/-- Whether everything inside has a value. -/
def isReadable : Json → Bool
  | unreadable => false
  | array items => areReadable items
  | object members => membersReadable members
  | _ => true

def areReadable : List Json → Bool
  | [] => true
  | item :: rest => isReadable item && areReadable rest

def membersReadable : List (String × Json) → Bool
  | [] => true
  | (_, item) :: rest => isReadable item && membersReadable rest

end

/-- The only member of a name; fails if the name repeats. -/
def single? (members : List (String × Json)) (name : String) : Option (Option Json) :=
  match members.filter (·.1 == name) with
  | [] => some none
  | [(_, value)] => some (some value)
  | _ => none

/-- The fields of a form, in the order of their names. -/
def fields? (names : List String) : Json → Option (List (Option Json))
  | object members => names.mapM (single? members)
  | array items =>
    if items.length ≤ names.length then
      some (items.map some ++ List.replicate (names.length - items.length) none)
    else none
  | _ => none

/-- The tag of a tagged form, and the form without it. Everything in the form has to have a value,
also what nothing asks for. -/
def tagged? (j : Json) : Option (String × Json) :=
  if !j.isReadable then none
  else
    match j with
    | object members => do
      let tag ← (← single? members "type").bind toString?
      return (tag, object (members.filter (·.1 != "type")))
    | array (string tag :: items) => some (tag, array items)
    | _ => none

/-- A choice among names: the name alone, or an object with the name as its only member and nothing
in it. -/
def choice? : Json → Option String
  | string name => some name
  | object [(name, null)] => some name
  | _ => none

/-- A field that has to be there and to be a number. -/
def required? (field : Option Json) : Option Single := field.bind toSingle?

/-- A number that may be left out. -/
def optional? (field : Option Json) (otherwise : Single) : Option Single :=
  match field with
  | none => some otherwise
  | some j => j.toSingle?

/-- A text in double quotes; it holds nothing that has to be escaped. -/
def quotedText (text : String) : String := "\"" ++ text ++ "\""

/-- An object from names and the texts of the values, without blanks. -/
def objectText (members : List (String × String)) : String :=
  "\x7b" ++ ",".intercalate (members.map fun (name, value) => quotedText name ++ ":" ++ value) ++
    "\x7d"

end NeuralNet.Json
