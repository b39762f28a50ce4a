import NeuralNet.Number.Written

namespace NeuralNet

/-- A number of a document: whole ones that fit 64 bits, with a sign or without one, are exact, and
all others are double-precision words. -/
inductive Numeral where
  | whole (n : Int)
  | double (word : Nat)
  deriving DecidableEq, Repr

/-- A document. Members keep their order and may repeat a name. -/
inductive Json where
  | null
  | bool (b : Bool)
  | number (n : Numeral)
  | string (s : String)
  | array (items : List Json)
  | object (members : List (String × Json))
  /-- What is well formed and still has no value: a number that is too great, a text with half of a
  surrogate pair, an object with such a name, a container inside too many others. -/
  | unreadable
  deriving Repr

namespace Numeral

/-- The whole number that was written. Minus zero is none. -/
def wholeOf? (w : WrittenNumber) : Option Int := do
  let n ← if w.isWhole then w.wholePart? else none
  if !w.negative then some n
  else if n ≠ 0 ∧ n ≤ 0x8000000000000000 then some (-n)
  else none

/-- The number that was written, unless it is too great. -/
def ofWritten? (w : WrittenNumber) : Option Numeral :=
  match wholeOf? w with
  | some n => some (whole n)
  | none => w.toDouble?.map double

/-- The nearest double-precision word. -/
def toDouble : Numeral → Nat
  | whole n => BinaryFormat.double.write (.finite (n < 0) n.natAbs 0)
  | double word => word

def toInt? : Numeral → Option Int
  | whole n => some n
  | double _ => none

def toNat? : Numeral → Option Nat
  | whole (.ofNat n) => some n
  | _ => none

/-- In single precision: whole numbers directly, all others by way of double. -/
def toSingle : Numeral → Single
  | whole n => .ofInt n
  | double word => ⟨(BinaryFormat.convert .double .single word).toUInt32⟩

end Numeral

namespace Json

def toNat? : Json → Option Nat
  | number n => n.toNat?
  | _ => none

def toSingle? : Json → Option Single
  | number n => some n.toSingle
  | _ => none

/-- A natural number, or null for none. -/
def toOptionalNat? : Json → Option (Option Nat)
  | null => some none
  | j => some <$> j.toNat?

def toString? : Json → Option String
  | string s => some s
  | _ => none

def toBool? : Json → Option Bool
  | bool b => some b
  | _ => none

def toList? : Json → Option (List Json)
  | array items => some items
  | _ => none

/-- The member of a name; the first, if the name repeats. -/
def member? (name : String) : Json → Option Json
  | object members => members.lookup name
  | _ => none

end Json

end NeuralNet
