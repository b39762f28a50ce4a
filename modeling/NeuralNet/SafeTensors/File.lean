import NeuralNet.DataType.Codec
import NeuralNet.Json.Form
import NeuralNet.Json.Reader

/-!
Safetensors files: the length of a header in eight bytes, the header as a document, then the values.
The header gives each tensor its type, its extents and its range of bytes. The ranges follow on each
other from the first byte to the last.
-/

namespace NeuralNet.SafeTensors

/-- The types that a file may hold. -/
inductive ElementType where
  | bool
  | u8
  | i8
  | f8e5m2
  | f8e4m3
  | i16
  | u16
  | f16
  | bf16
  | i32
  | u32
  | f32
  | f64
  | i64
  | u64
  deriving DecidableEq, Repr

namespace ElementType

def all : List ElementType :=
  [.bool, .u8, .i8, .f8e5m2, .f8e4m3, .i16, .u16, .f16, .bf16, .i32, .u32, .f32, .f64, .i64, .u64]

def name : ElementType → String
  | bool => "BOOL"
  | u8 => "U8"
  | i8 => "I8"
  | f8e5m2 => "F8_E5M2"
  | f8e4m3 => "F8_E4M3"
  | i16 => "I16"
  | u16 => "U16"
  | f16 => "F16"
  | bf16 => "BF16"
  | i32 => "I32"
  | u32 => "U32"
  | f32 => "F32"
  | f64 => "F64"
  | i64 => "I64"
  | u64 => "U64"

def ofName? (name : String) : Option ElementType := all.find? (·.name == name)

/-- Bytes of one value. -/
def width : ElementType → Nat
  | bool | u8 | i8 | f8e5m2 | f8e4m3 => 1
  | i16 | u16 | f16 | bf16 => 2
  | i32 | u32 | f32 => 4
  | f64 | i64 | u64 => 8

end ElementType

/-- An entry of the header. -/
structure Entry where
  name : String
  type : ElementType
  extents : Extents
  start : Nat
  stop : Nat
  deriving DecidableEq, Repr

/-- A file that was found consistent. -/
structure File where
  entries : List Entry
  data : List UInt8

def maxHeaderBytes : Nat := 100000000

def naturals? (j : Json) : Option (List Nat) := do (← j.toList?).mapM Json.toNat?

/-- An entry from its form, in which everything has to have a value. -/
def entry? (name : String) (j : Json) : Option Entry := do
  if !j.isReadable then none
  else
    let [some type, some extents, some offsets] ←
      j.fields? ["dtype", "shape", "data_offsets"] | none
    let [start, stop] ← naturals? offsets | none
    return ⟨name, ← type.choice?.bind ElementType.ofName?, ← naturals? extents, start, stop⟩

/-- Remarks are texts by their names, and say nothing about the tensors. -/
def isRemarks : Json → Bool
  | .null => true
  | .object members => members.all fun (_, value) => value.toString?.isSome
  | _ => false

/-- The name under which a header keeps its remarks. -/
def remarksName : String := "__metadata__"

/-- The members with the last one of every name. -/
def lastOfEach {β : Type} : List (String × β) → List (String × β)
  | [] => []
  | (name, b) :: rest =>
    let others := lastOfEach rest
    if others.any (·.1 == name) then others else (name, b) :: others

/-- The entries of a header, by their ranges. -/
def entries? : Json → Option (List Entry)
  | .object members => do
    let remarks ← Json.single? members remarksName
    if (remarks.map isRemarks).getD true then
      let entries ← (members.filter (·.1 != remarksName)).mapM fun (name, j) => do
        return (name, ← entry? name j)
      return ((lastOfEach entries).map (·.2)).mergeSort fun a b =>
        a.start < b.start || (a.start == b.start && a.stop ≤ b.stop)
    else none
  | _ => none

/-- The bytes that the values of an entry take. -/
def Entry.byteCount? (e : Entry) : Option Nat :=
  e.extents.checkedSize?.bind (Extents.checkedMul · e.type.width)

/-- Checks that the ranges follow on each other from `start` on and fit their extents; gives the end
of the last one. -/
def checkRanges : (start : Nat) → List Entry → Except SafeTensorsFault Nat
  | start, [] => .ok start
  | start, e :: rest =>
    if e.start ≠ start ∨ e.stop < e.start then .error (.invalidOffset e.name)
    else
      match e.byteCount? with
      | none => .error .validationOverflow
      | some n =>
        if e.stop - e.start ≠ n then .error .tensorInvalidInfo else checkRanges e.stop rest

/-- The file that bytes hold. -/
def ofBytes (bytes : List UInt8) : Except SafeTensorsFault File := do
  if bytes.length < 8 then throw .headerTooSmall
  let length := ofLittleEndian (bytes.take 8)
  if maxHeaderBytes < length then throw .headerTooLarge
  let rest := bytes.drop 8
  if rest.length < length then throw .invalidHeaderLength
  let some header := String.fromUTF8? ⟨(rest.take length).toArray⟩ | throw .invalidHeader
  let some entries := (Json.parse? header).bind entries? | throw .invalidHeaderDeserialization
  let data := rest.drop length
  let stop ← checkRanges 0 entries
  if stop ≠ data.length then throw .metadataIncompleteBuffer
  return ⟨entries, data⟩

namespace File

def entry? (f : File) (name : String) : Option Entry := f.entries.find? (·.name == name)

/-- The bytes of an entry. -/
def bytes (f : File) (e : Entry) : List UInt8 := (f.data.drop e.start).take (e.stop - e.start)

end File

/-- The number of a two-byte word that is the upper half of a single-precision word. -/
def ofUpperHalf (word : Nat) : Single :=
  let a : Single := ⟨(word * 65536).toUInt32⟩
  if a.isNaN then ⟨a.bits ||| 0x00400000⟩ else a

/-- The element type that values of an entry get, and the values. Double precision is narrowed. -/
def Entry.decode (e : Entry) (bytes : List UInt8) : Except Error (DataType × List Single) :=
  let words (width : Nat) := (pieces width (bytes.length / width) bytes).map ofLittleEndian
  let as (t : DataType) : Except Error (DataType × List Single) := do return (t, ← t.decode bytes)
  match e.type with
  | .f32 => as .float32
  | .f16 => as .float16
  | .i32 => as .int32
  | .i64 => as .int64
  | .i8 => as .int8
  | .u8 => as .uint8
  | .f64 =>
    .ok (.float32, (words 8).map fun w => ⟨(BinaryFormat.convert .double .single w).toUInt32⟩)
  | .bf16 => .ok (.float32, (words 2).map ofUpperHalf)
  | t => .error (.unsupported (.elementType t.name e.name))

end NeuralNet.SafeTensors
