import NeuralNet.DataType
import NeuralNet.Extents
import NeuralNet.Optimizer.Settings
import NeuralNet.Shape.Basic
import NeuralNet.Text.Escaped

/-!
Everything that can go wrong, by cause. `Error.message` gives the words.
-/

namespace NeuralNet

/-- One side of a shape comparison. -/
inductive Dimensions where
  | extents (s : Extents)
  | count (n : Nat)
  | words (text : String)
  deriving DecidableEq, Repr

/-- Why values could not be laid out as an array. -/
inductive ArrayFault where
  | tooFewValues
  | incompatibleExtents
  | overflow
  deriving DecidableEq, Repr

/-- What was asked for before it existed. -/
inductive Missing where
  | parameterShape (name : String)
  | embedding
  | vocabulary
  | optimizer
  deriving DecidableEq, Repr

/-- The part of a record at which a stream ended. -/
inductive RecordPart where
  | nameLength
  | name
  | rank
  | dimension
  | tag
  | values
  deriving DecidableEq, Repr

/-- What is wrong with a stream of records. -/
inductive StreamFault where
  | endedIn (part : RecordPart)
  | nameTooLong (bytes : Nat)
  | nameNotText
  | rankTooHigh (rank : Nat) (name : String)
  | countOverflow (name : String)
  | partialElement (bytes : Nat) (type : DataType)
  | inexact (type : DataType) (value : String)
  | endedAfter (records parameters : Nat)
  | unexpectedName (key : String) (position : Nat) (found : String)
  | trailingBytes
  deriving DecidableEq, Repr

/-- What is well formed but not known here. -/
inductive UnsupportedFault where
  | tag (tag : UInt8)
  | elementType (type name : String)
  deriving DecidableEq, Repr

/-- What is wrong with an argument. -/
inductive ArgumentFault where
  | symbolicBatch (shape : Shape)
  | undeclaredParameter (block name : String)
  | unknownParameter (block name : String)
  | inputCount (block : String) (given : Nat)
  | inputShapeCount (block : String) (given : Nat)
  | axis (operation : String) (axis rank : Nat)
  | rankZero (operation what : String)
  | permutation (axes : List Nat) (rank : Nat)
  | nothingToJoin
  | selection (index axis : Nat) (extents : Extents)
  | slice (start stop extent : Nat)
  | normAxis (axis rank : Nat)
  | channelAxis (axis : Nat) (shape : Shape)
  | windowArity (stride padding : List Nat) (axes : Nat)
  | dropoutProbability (p : Single)
  | embeddingId (id : String) (rows : Nat)
  | classIndex (index : String) (classes : Nat)
  | vocabularyId (id : String) (tokens : Nat)
  | vocabularySize (tokens : Nat)
  | textIndex (index sentences : Nat)
  | stateBatch (block : String)
  | noOutputs
  | recordName (bytes : Nat)
  | recordRank (rank : Nat)
  deriving DecidableEq, Repr

/-- What is wrong with a setting. -/
inductive SettingFault where
  | optimizer (settings : OptimizerSettings)
  | convArity (kernel stride padding : List Nat) (axes : Nat)
  | convZero
  | convFilters
  | dropoutProbability (p : Single)
  | recurrentSize (block : String)
  | batchSize
  | uniformScale (scale : Single)
  | normalSigma (sigma : Single)
  | constantValue (value : Single)
  deriving DecidableEq, Repr

/-- What is wrong with a safetensors file. -/
inductive SafeTensorsFault where
  | headerTooSmall
  | headerTooLarge
  | invalidHeaderLength
  | invalidHeader
  | invalidHeaderDeserialization
  | invalidOffset (name : String)
  | validationOverflow
  | tensorInvalidInfo
  | metadataIncompleteBuffer
  deriving DecidableEq, Repr

inductive Error where
  | shapeMismatch (context : String) (expected actual : Dimensions)
  | dataTypeMismatch (context : String) (expected actual : DataType)
  | uninitialized (what : Missing)
  | malformedStream (fault : StreamFault)
  | unsupported (fault : UnsupportedFault)
  | invalidArgument (fault : ArgumentFault)
  | invalidSetting (fault : SettingFault)
  | array (fault : ArrayFault)
  | safeTensors (fault : SafeTensorsFault)
  /-- A byte source failed. -/
  | io
  /-- A document does not have the expected form. -/
  | document
  deriving DecidableEq, Repr

def Dimensions.text : Dimensions → String
  | extents s => s.text
  | count n => toString n
  | words text => Text.escaped text

def ArrayFault.text : ArrayFault → String
  | tooFewValues => "ShapeError/OutOfBounds: out of bounds indexing"
  | incompatibleExtents => "ShapeError/IncompatibleShape: incompatible shapes"
  | overflow => "ShapeError/Overflow: arithmetic overflow"

def Missing.text : Missing → String
  | parameterShape name => s!"parameter `{name}` has no shape yet"
  | embedding => "text embedding; call preprocess first"
  | vocabulary => "vocabulary; call preprocess first"
  | optimizer => "trainer optimizer"

def RecordPart.text : RecordPart → String
  | nameLength => "name length"
  | name => "parameter name"
  | rank => "rank"
  | dimension => "dimension"
  | tag => "data type tag"
  | values => "parameter values"

def StreamFault.text : StreamFault → String
  | endedIn part => "unexpected end of stream reading " ++ part.text
  | nameTooLong bytes => s!"name length {bytes} exceeds 65536"
  | nameNotText => "parameter name is not UTF-8"
  | rankTooHigh rank name => s!"rank {rank} of `{name}` exceeds 32"
  | countOverflow name => s!"element count of `{name}` overflows"
  | partialElement bytes type =>
    s!"{bytes} bytes is not a whole number of " ++ type.label ++ " elements"
  | inexact type value => type.label ++ " value " ++ value ++ " is not exactly representable"
  | endedAfter records parameters => s!"stream ended after {records} of {parameters} parameters"
  | unexpectedName key position found =>
    s!"expected parameter `{key}` at position {position}, found `{found}`"
  | trailingBytes => "trailing bytes after the last parameter record"

def UnsupportedFault.text : UnsupportedFault → String
  | tag t => s!"unknown data type tag " ++ toString t.toNat
  | elementType type name => s!"safetensors dtype {type} for `{name}`"

def probabilityText (p : Single) : String :=
  "dropout probability " ++ p.text ++ " outside [0, 1)"

def ArgumentFault.text : ArgumentFault → String
  | symbolicBatch shape => "shape " ++ shape.text ++ " has a symbolic batch dimension"
  | undeclaredParameter block name => s!"{block} declares no parameter `{name}`"
  | unknownParameter block name => s!"{block} has no parameter `{name}`"
  | inputCount block given => s!"{block} expects 1 input, got {given}"
  | inputShapeCount block given => s!"{block} expects 1 input shape, got {given}"
  | axis operation given rank => s!"{operation}: axis {given} out of range for rank {rank}"
  | rankZero operation what => s!"{operation}: rank-0 {what}"
  | permutation axes rank =>
    "permute: " ++ Extents.text axes ++ s!" is not a permutation of rank {rank}"
  | nothingToJoin => "cat: no tensors given"
  | selection index along extents =>
    s!"select: index {index} out of range for axis {along} of " ++ extents.text
  | slice start stop extent => s!"slice_last_dim: {start}..{stop} out of range for {extent}"
  | normAxis given rank => s!"batch norm axis {given} out of range for rank {rank}"
  | channelAxis given shape =>
    s!"batch_norm axis {given} must be a non-batch axis of " ++ shape.text
  | windowArity stride padding axes =>
    "conv: stride " ++ Extents.text stride ++ " and padding " ++ Extents.text padding ++
      s!" need {axes} entries"
  | dropoutProbability p => probabilityText p
  | embeddingId id rows => s!"embedding id {id} outside vocabulary of {rows}"
  | classIndex index classes => s!"class index {index} outside 0..{classes}"
  | vocabularyId id tokens => s!"id {id} outside vocabulary of {tokens}"
  | vocabularySize tokens => s!"vocabulary of {tokens} tokens exceeds 16777216 exact f32 ids"
  | textIndex index sentences => s!"text index {index} out of {sentences}"
  | stateBatch block => s!"{block} state shapes need a concrete batch size"
  | noOutputs => "model produced no outputs"
  | recordName bytes => s!"parameter name of {bytes} bytes exceeds 65536"
  | recordRank rank => s!"rank {rank} exceeds 32"

def SettingFault.text : SettingFault → String
  | optimizer settings => "optimizer settings out of range: " ++ settings.label
  | convArity kernel stride padding axes =>
    s!"conv{axes}d needs {axes} kernel/stride/padding entries, got " ++ Extents.text kernel ++
      "/" ++ Extents.text stride ++ "/" ++ Extents.text padding
  | convZero => "conv kernel and stride must be positive"
  | convFilters => "conv needs at least one filter"
  | dropoutProbability p => probabilityText p
  | recurrentSize block => s!"{block} needs a positive state size and layer count"
  | batchSize => "batch size must be positive"
  | uniformScale scale => "uniform scale must be finite and >= 0, got " ++ scale.text
  | normalSigma sigma => "normal sigma must be finite and >= 0, got " ++ sigma.text
  | constantValue value => "constant initializer must be finite, got " ++ value.text

def SafeTensorsFault.text : SafeTensorsFault → String
  | headerTooSmall => "HeaderTooSmall"
  | headerTooLarge => "HeaderTooLarge"
  | invalidHeaderLength => "InvalidHeaderLength"
  | invalidHeader => "InvalidHeader"
  | invalidHeaderDeserialization => "InvalidHeaderDeserialization"
  | invalidOffset name => "InvalidOffset(" ++ Text.escaped name ++ ")"
  | validationOverflow => "ValidationOverflow"
  | tensorInvalidInfo => "TensorInvalidInfo"
  | metadataIncompleteBuffer => "MetadataIncompleteBuffer"

/-- The words of an error; a failing source and a malformed document leave theirs to the caller. -/
def Error.message : Error → Option String
  | shapeMismatch context expected actual =>
    some ("shape mismatch in " ++ context ++ ": expected " ++ expected.text ++ ", got " ++
      actual.text)
  | dataTypeMismatch context expected actual =>
    some ("data type mismatch in " ++ context ++ ": expected " ++ expected.label ++ ", got " ++
      actual.label)
  | uninitialized what => some ("uninitialized: " ++ what.text)
  | malformedStream fault => some ("malformed parameter stream: " ++ fault.text)
  | unsupported fault => some ("unsupported format: " ++ fault.text)
  | invalidArgument fault => some ("invalid argument: " ++ fault.text)
  | invalidSetting fault => some ("invalid configuration: " ++ fault.text)
  | array fault => some ("array error: " ++ fault.text)
  | safeTensors fault => some ("safetensors error: " ++ fault.text)
  | io => none
  | document => none

end NeuralNet
