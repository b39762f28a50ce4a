import NeuralNet.Bytes
import NeuralNet.DenseArray.Basic
import NeuralNet.Random.Distribution

/-!
Samples with their labels, cut into batches. The samples are the entries on the first axis; a label
has the position of its sample.
-/

namespace NeuralNet

namespace DenseArray

variable {α : Type} [Zero α]

/-- The entries of the first axis that a list of positions names, in the order of the list. -/
def selectFirst (a : DenseArray α) (positions : List Nat) : DenseArray α :=
  let chosen := positions.toArray
  a.gather (positions.length :: a.extents.tail) fun i => chosen.getD (i.headD 0) 0 :: i.tail

end DenseArray

/-- Samples that are computed with together. -/
structure Batch (α : Type) where
  data : DenseArray α
  labels : DenseArray α
  deriving DecidableEq, Repr

def Batch.size {α : Type} (b : Batch α) : Nat := b.data.extents.headD 0

structure Dataset (α : Type) where
  data : DenseArray α
  labels : DenseArray α
  batchSize : Nat
  /-- The seed by which every epoch is put into another order. -/
  shuffle : Option Nat
  size : Nat
  data_size : data.extents.head? = some size
  labels_size : labels.extents.head? = some size
  batchSize_pos : 0 < batchSize

namespace Dataset

variable {α : Type}

/-- Needs a label for every sample and a positive batch size. -/
def ofArrays (data labels : DenseArray α) (batchSize : Nat) : Except Error (Dataset α) :=
  match hd : data.extents.head?, hl : labels.extents.head? with
  | some size, some count =>
    if h : count = size then
      if hb : 0 < batchSize then .ok ⟨data, labels, batchSize, none, size, hd, h ▸ hl, hb⟩
      else .error (.invalidSetting .batchSize)
    else .error (.shapeMismatch "dataset labels" (.extents data.extents) (.extents labels.extents))
  | _, _ =>
    .error (.shapeMismatch "dataset labels" (.extents data.extents) (.extents labels.extents))

def withShuffle (d : Dataset α) (seed : Nat) : Dataset α := { d with shuffle := some seed }

def withBatchSize (d : Dataset α) (batchSize : Nat) : Except Error (Dataset α) :=
  if hb : 0 < batchSize then .ok { d with batchSize, batchSize_pos := hb }
  else .error (.invalidSetting .batchSize)

/-- How many pieces of `width` it takes to hold `count`. -/
def pieceCount (width count : Nat) : Nat := (count + width - 1) / width

def batchCount (d : Dataset α) : Nat := pieceCount d.batchSize d.size

/-- The positions of all samples: as they come, or in the random order of a seed and an epoch. -/
def order (d : Dataset α) (seed : Option Nat) (epoch : Nat) : List Nat :=
  match seed with
  | none => List.range d.size
  | some seed => ((Draw.shuffled d.size).run (.ofSeed (seed + epoch))).1.toList

variable [Zero α]

/-- The samples in their order, `batchSize` at a time; the last batch may be smaller. -/
def batchesWith (d : Dataset α) (batchSize : Nat) (seed : Option Nat) (epoch : Nat) :
    List (Batch α) :=
  let width := max batchSize 1
  (pieces width (pieceCount width d.size) (d.order seed epoch)).map fun positions =>
    ⟨d.data.selectFirst positions, d.labels.selectFirst positions⟩

/-- The batches of an epoch of training. -/
def batches (d : Dataset α) (epoch : Nat) : List (Batch α) :=
  d.batchesWith d.batchSize d.shuffle epoch

end Dataset

end NeuralNet
