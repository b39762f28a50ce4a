import NeuralNet.Bytes
import NeuralNet.Error

/-!
Values in storage: every type writes the nearest value it has, and reads back only what single
precision holds exactly.
-/

namespace NeuralNet.DataType

/-- The word that stands for a value. -/
def word (t : DataType) (a : Single) : Nat :=
  match t with
  | .float32 => a.bits.toNat
  | .float64 => BinaryFormat.convert .single .double a.bits.toNat
  | .float16 => BinaryFormat.convert .single .half a.bits.toNat
  | .uint8 => twosComplement 1 (a.saturate 0 255)
  | .int8 => twosComplement 1 (a.saturate (-128) 127)
  | .int32 => twosComplement 4 (a.saturate (-0x80000000) 0x7fffffff)
  | .int64 => twosComplement 8 (a.saturate (-0x8000000000000000) 0x7fffffffffffffff)

def encodeValue (t : DataType) (a : Single) : List UInt8 := littleEndian t.width (t.word a)

/-- The values one after another, lowest byte first. -/
def encode (t : DataType) (values : List Single) : List UInt8 := values.flatMap t.encodeValue

/-- A whole number, if single precision holds it. -/
def exactInteger (t : DataType) (i : Int) : Except Error Single :=
  let a := Single.ofInt i
  if a.toInt? = some i then .ok a
  else .error (.malformedStream (.inexact t (toString i)))

/-- A double-precision word, if single precision holds its number. Every NaN is accepted. -/
def exactDouble (word : Nat) : Except Error Single :=
  let narrow := BinaryFormat.convert .double .single word
  let a : Single := ⟨narrow.toUInt32⟩
  if a.isNaN || BinaryFormat.convert .single .double narrow == word then .ok a
  else
    .error (.malformedStream
      (.inexact .float64 (Decimal.text Decimal.plain .double (BinaryFormat.double.read word))))

/-- The value of a word. -/
def ofWord (t : DataType) (word : Nat) : Except Error Single :=
  match t with
  | .float32 => .ok ⟨word.toUInt32⟩
  | .float64 => exactDouble word
  | .float16 => .ok ⟨(BinaryFormat.convert .half .single word).toUInt32⟩
  | .uint8 => .ok (.ofNat word)
  | .int8 => .ok (.ofInt (ofTwosComplement 1 word))
  | .int32 => exactInteger t (ofTwosComplement 4 word)
  | .int64 => exactInteger t (ofTwosComplement 8 word)

/-- Refuses a part of an element and a value that single precision does not hold. -/
def decode (t : DataType) (bytes : List UInt8) : Except Error (List Single) :=
  if bytes.length % t.width ≠ 0 then
    .error (.malformedStream (.partialElement bytes.length t))
  else
    (pieces t.width (bytes.length / t.width) bytes).mapM fun piece =>
      t.ofWord (ofLittleEndian piece)

end NeuralNet.DataType
