import NeuralNet.Parameter.Basic

/-!
Layers as they are set up: what they are called, what parameters they declare. Settings that make no
sense are refused when a layer is made, and a layer keeps the reasons why its settings do.
-/

namespace NeuralNet

/-- A function applied to every value. -/
inductive Activation where
  | relu
  | sigmoid
  | tanh
  deriving DecidableEq, Repr

namespace Activation

def all : List Activation := [.relu, .sigmoid, .tanh]

def name : Activation → String
  | relu => "relu"
  | sigmoid => "sigmoid"
  | tanh => "tanh"

def ofName? (name : String) : Option Activation := all.find? (·.name == name)

end Activation

/-- Settings of a convolution; lists have one entry for every axis that windows move along. -/
structure ConvLayer where
  kernel : List Nat
  filters : Nat
  stride : List Nat
  padding : List Nat
  bias : Bool
  kernel_ne : kernel ≠ []
  stride_length : stride.length = kernel.length
  padding_length : padding.length = kernel.length
  kernel_pos : ∀ k ∈ kernel, k ≠ 0
  stride_pos : ∀ s ∈ stride, s ≠ 0
  filters_pos : filters ≠ 0

namespace ConvLayer

/-- A convolution over `axes` axes. Unless set otherwise windows are one apart and nothing is
padded. -/
def make (axes : Nat) (kernel : List Nat) (filters : Nat) (stride padding : Option (List Nat))
    (bias : Bool) : Except Error ConvLayer :=
  let stride := stride.getD (List.replicate axes 1)
  let padding := padding.getD (List.replicate axes 0)
  if h : kernel ≠ [] ∧ kernel.length = axes ∧ stride.length = axes ∧ padding.length = axes then
    if hz : (∀ k ∈ kernel, k ≠ 0) ∧ ∀ s ∈ stride, s ≠ 0 then
      if hf : filters ≠ 0 then
        .ok ⟨kernel, filters, stride, padding, bias, h.1, by omega, by omega, hz.1, hz.2, hf⟩
      else .error (.invalidSetting .convFilters)
    else .error (.invalidSetting .convZero)
  else .error (.invalidSetting (.convArity kernel stride padding axes))

def name (c : ConvLayer) : String := s!"conv{c.kernel.length}d"

end ConvLayer

/-- What a recurrent layer does at every time step. -/
inductive Cell where
  | rnn (activation : Activation)
  | lstm
  | gru
  deriving DecidableEq, Repr

namespace Cell

def name : Cell → String
  | rnn _ => "rnn"
  | lstm => "lstm"
  | gru => "gru"

/-- How many gates of the size of the state are computed together. -/
def gates : Cell → Nat
  | rnn _ => 1
  | lstm => 4
  | gru => 3

/-- Whether the cell carries a memory beside its state. -/
def hasMemory (c : Cell) : Bool := c == lstm

end Cell

/-- Settings of a recurrent layer, which may be several cells on top of each other. -/
structure RecurrentLayer where
  cell : Cell
  stateSize : Nat
  depth : Nat
  returnState : Bool
  stateSize_pos : stateSize ≠ 0
  depth_pos : depth ≠ 0

namespace RecurrentLayer

def make (cell : Cell) (stateSize depth : Nat) (returnState : Bool) :
    Except Error RecurrentLayer :=
  if h : stateSize ≠ 0 ∧ depth ≠ 0 then .ok ⟨cell, stateSize, depth, returnState, h.1, h.2⟩
  else .error (.invalidSetting (.recurrentSize cell.name))

end RecurrentLayer

/-- A dropout probability: at least 0 and below 1. -/
structure DropoutRate where
  value : Single
  fraction : OptimizerSettings.isFraction value = true

def DropoutRate.make (value : Single) : Except Error DropoutRate :=
  if h : OptimizerSettings.isFraction value = true then .ok ⟨value, h⟩
  else .error (.invalidSetting (.dropoutProbability value))

inductive Layer where
  | linear (units : Nat) (bias : Bool)
  | conv (c : ConvLayer)
  | batchNorm (axis : Nat) (epsilon momentum : Single)
  | dropout (rate : DropoutRate)
  | flatten
  | activation (a : Activation)
  /-- A table of `rows` vectors of `width` values. -/
  | embedding (rows width : Nat)
  /-- A table with a vector for every token of a vocabulary. -/
  | wordEmbedding (tokens width : Nat)
  | recurrent (r : RecurrentLayer)

namespace Layer

/-- What is added to a variance, unless set otherwise. -/
def defaultEpsilon : Single := .ofDecimal false ⟨1, -5⟩

/-- How much of a running statistic is kept, unless set otherwise. -/
def defaultMomentum : Single := .ofDecimal false ⟨9, -1⟩

def defaultAxis : Nat := 1

def name : Layer → String
  | linear _ _ => "linear"
  | conv c => c.name
  | batchNorm _ _ _ => "batch_norm"
  | dropout _ => "dropout"
  | flatten => "flatten"
  | activation a => a.name
  | embedding _ _ => "embedding"
  | wordEmbedding _ _ => "word_embedding"
  | recurrent r => r.cell.name

/-- The parameters of the cell at one height. -/
def cellParameters (height : Nat) : List (String × ParameterKind) :=
  [(s!"l{height}_i2h_weight", .weight), (s!"l{height}_i2h_bias", .bias),
    (s!"l{height}_h2h_weight", .weight), (s!"l{height}_h2h_bias", .bias)]

def weightAndBias (bias : Bool) : List (String × ParameterKind) :=
  ("weight", .weight) :: if bias then [("bias", .bias)] else []

/-- The parameters that a layer has, in their order. -/
def declared : Layer → List (String × ParameterKind)
  | linear _ bias => weightAndBias bias
  | conv c => weightAndBias c.bias
  | batchNorm _ _ _ =>
    [("gamma", .gamma), ("beta", .beta), ("running_mean", .runningMean),
      ("running_var", .runningVar)]
  | embedding _ _ | wordEmbedding _ _ => [("weight", .weight)]
  | recurrent r => (List.range r.depth).flatMap cellParameters
  | dropout _ | flatten | activation _ => []

end Layer

end NeuralNet
