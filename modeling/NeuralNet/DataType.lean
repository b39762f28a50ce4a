import NeuralNet.Number.Decimal

namespace NeuralNet

/-- The type in which a parameter's values are declared and stored. Computation is always in
single precision. -/
inductive DataType where
  | float32
  | float64
  | float16
  | uint8
  | int32
  | int8
  | int64
  deriving DecidableEq, Repr, Inhabited

namespace DataType

/-- All types, in the order of their tags. -/
def all : List DataType := [.float32, .float64, .float16, .uint8, .int32, .int8, .int64]

/-- The byte that announces the type in a record. -/
def tag : DataType → UInt8
  | .float32 => 0
  | .float64 => 1
  | .float16 => 2
  | .uint8 => 3
  | .int32 => 4
  | .int8 => 5
  | .int64 => 6

def ofTag? (tag : UInt8) : Option DataType := all.find? (·.tag == tag)

/-- Bytes of one value. -/
def width : DataType → Nat
  | .uint8 | .int8 => 1
  | .float16 => 2
  | .float32 | .int32 => 4
  | .float64 | .int64 => 8

def isFloating : DataType → Bool
  | .float32 | .float64 | .float16 => true
  | _ => false

def name : DataType → String
  | .float32 => "float32"
  | .float64 => "float64"
  | .float16 => "float16"
  | .uint8 => "uint8"
  | .int32 => "int32"
  | .int8 => "int8"
  | .int64 => "int64"

def ofName? (name : String) : Option DataType := all.find? (·.name == name)

/-- The name used in messages. -/
def label : DataType → String
  | .float32 => "Float32"
  | .float64 => "Float64"
  | .float16 => "Float16"
  | .uint8 => "Uint8"
  | .int32 => "Int32"
  | .int8 => "Int8"
  | .int64 => "Int64"

end DataType

namespace Single

/-- The nearest value of a narrow type: half precision rounds to even, the integers round halves
away from zero and stop at their bounds. The 8-bit integers keep NaN and the sign of zero, the
wider ones do not. -/
def narrow (t : DataType) (a : Single) : Single :=
  match t with
  | .float32 | .float64 => a
  | .float16 =>
    ⟨(BinaryFormat.convert .half .single
      (BinaryFormat.convert .single .half a.bits.toNat)).toUInt32⟩
  | .uint8 => a.round.clamp zero (ofNat 255)
  | .int8 => a.round.clamp (ofInt (-128)) (ofNat 127)
  | .int32 => ofInt (a.saturate (-0x80000000) 0x7fffffff)
  | .int64 => ofInt (a.saturate (-0x8000000000000000) 0x7fffffffffffffff)

end Single

end NeuralNet
