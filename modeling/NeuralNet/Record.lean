import NeuralNet.DataType.Codec
import NeuralNet.Record.Source

/-!
Parameters in storage. A record is: the length of the name in four bytes, the name in UTF-8, the
rank in four bytes, eight bytes per axis, one byte for the type, then the values in row-major order.
All numbers have their lowest byte first. A file is records one after another.
-/

namespace NeuralNet

structure Record where
  name : String
  extents : Extents
  type : DataType
  values : List Single
  deriving DecidableEq, Repr

namespace Record

def maxNameBytes : Nat := 65536

def maxRank : Nat := 32

def nameBytes (name : String) : List UInt8 := name.toUTF8.data.toList

def encode (r : Record) : Except Error (List UInt8) := do
  let name := nameBytes r.name
  if maxNameBytes < name.length then throw (.invalidArgument (.recordName name.length))
  if maxRank < r.extents.length then throw (.invalidArgument (.recordRank r.extents.length))
  if r.extents.checkedSize? ≠ some r.values.length then
    throw (.shapeMismatch s!"record `{r.name}`" (.extents r.extents) (.count r.values.length))
  return littleEndian 4 name.length ++ name ++ littleEndian 4 r.extents.length ++
    r.extents.flatMap (littleEndian 8) ++ [r.type.tag] ++ r.type.encode r.values

/-- Whether two records are equal, where zeros of both signs are equal and no NaN is. -/
def eqv (a b : Record) : Bool :=
  a.name == b.name && a.extents == b.extents && a.type == b.type &&
    a.values.length == b.values.length && (a.values.zip b.values).all fun (x, y) => x.eqv y

/-- Reading consumes a source. -/
abbrev Reader := StateT ByteSource (Except Error)

/-- Exactly `count` bytes. -/
def readBytes (part : RecordPart) (count : Nat) : Reader (List UInt8) := fun source =>
  let reply := source.request count
  if reply.failure.isSome then .error .io
  else if reply.bytes.length < count then .error (.malformedStream (.endedIn part))
  else .ok (reply.bytes, reply.rest)

/-- Exactly `count` bytes, or nothing at the end of the source. -/
def readBytes? (part : RecordPart) (count : Nat) : Reader (Option (List UInt8)) := fun source =>
  let reply := source.request count
  if reply.failure.isSome then .error .io
  else if reply.bytes.isEmpty then .ok (none, reply.rest)
  else if reply.bytes.length < count then .error (.malformedStream (.endedIn part))
  else .ok (some reply.bytes, reply.rest)

/-- A number that is `width` bytes wide. A source that says of its failure that it has ended is taken
at its word here. -/
def readNat (part : RecordPart) (width : Nat) : Reader Nat := fun source =>
  let reply := source.request width
  match reply.failure with
  | some .unexpectedEnd => .error (.malformedStream (.endedIn part))
  | some .other => .error .io
  | none =>
    if reply.bytes.length < width then .error (.malformedStream (.endedIn part))
    else .ok (ofLittleEndian reply.bytes, reply.rest)

def readExtents : (rank : Nat) → Reader Extents
  | 0 => pure []
  | rank + 1 => do
    let n ← readNat .dimension 8
    return n :: (← readExtents rank)

/-- The part of a record after the length of its name. -/
def readRest (nameLength : Nat) : Reader Record := do
  if maxNameBytes < nameLength then throw (.malformedStream (.nameTooLong nameLength))
  let some name := String.fromUTF8? ⟨(← readBytes .name nameLength).toArray⟩
    | throw (.malformedStream .nameNotText)
  let rank ← readNat .rank 4
  if maxRank < rank then throw (.malformedStream (.rankTooHigh rank name))
  let extents ← readExtents rank
  let tag := (← readNat .tag 1).toUInt8
  let some type := DataType.ofTag? tag | throw (.unsupported (.tag tag))
  let some length := extents.checkedSize?.bind (Extents.checkedMul · type.width)
    | throw (.malformedStream (.countOverflow name))
  let values ← type.decode (← readBytes .values length)
  return ⟨name, extents, type, values⟩

/-- The next record, or nothing where the source has ended. -/
def read : Reader (Option Record) := do
  let some length ← readBytes? .nameLength 4 | return none
  some <$> readRest (ofLittleEndian length)

end Record

end NeuralNet
