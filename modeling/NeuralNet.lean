import NeuralNet.Number.Binary
import NeuralNet.Number.Single
import NeuralNet.Number.Decimal
import NeuralNet.DataType
import NeuralNet.Extents
import NeuralNet.Optimizer.Settings
import NeuralNet.Shape.Basic
import NeuralNet.Text.Hidden
import NeuralNet.Text.Escaped
import NeuralNet.Error
import NeuralNet.Number.Scalar
import NeuralNet.DenseArray.Basic
import NeuralNet.Random.Keystream
import NeuralNet.Random.Distribution
import NeuralNet.Initializer
import NeuralNet.Bytes
import NeuralNet.DataType.Codec
import NeuralNet.Record.Source
import NeuralNet.Record
import NeuralNet.Parameter.Basic
import NeuralNet.Layer.Basic
import NeuralNet.DenseArray.Broadcast
import NeuralNet.DenseArray.Channels
import NeuralNet.DenseArray.Contract
import NeuralNet.Window
import NeuralNet.DenseArray.Convolve
import NeuralNet.DenseArray.Rows
import NeuralNet.DenseArray.Loss
import NeuralNet.DenseArray.Rearrange
import NeuralNet.Tape.Operation
import NeuralNet.Tape.Workspace
import NeuralNet.Tape.Compute
import NeuralNet.Layer.Forward
import NeuralNet.Shape.Check
import NeuralNet.Layer.Shape
import NeuralNet.Block.Basic
import NeuralNet.Block.Storage
import NeuralNet.Dataset
import NeuralNet.Number.Written
import NeuralNet.Json.Value
import NeuralNet.Json.Form
import NeuralNet.Initializer.Document
import NeuralNet.Json.Reader
import NeuralNet.Loss
import NeuralNet.Optimizer.Document
import NeuralNet.Optimizer.Step
import NeuralNet.Pairs
import NeuralNet.SafeTensors.File
import NeuralNet.SafeTensors.Import
import NeuralNet.Shape.Document
import NeuralNet.Tape.Backward
import NeuralNet.Text.Case
import NeuralNet.Text.Lower
import NeuralNet.Text.Words
import NeuralNet.Text.Processor
import NeuralNet.Text.Vocabulary
import NeuralNet.Text.WordEmbedding
import NeuralNet.Text.Corpus
import NeuralNet.Training.History
import NeuralNet.Training.Settings
import NeuralNet.Training.Trainer
import NeuralNet.Proofs.Number.Conversion
import NeuralNet.Proofs.DataType.Element
import NeuralNet.Proofs.Record.Reading
import NeuralNet.Proofs.Record.Head
import NeuralNet.Proofs.Record.Calls
import NeuralNet.Proofs.Extents
import NeuralNet.Proofs.Record.Grammar
import NeuralNet.Proofs.Checks
import NeuralNet.Proofs.Record.Arrival
import NeuralNet.Proofs.Record.Stream
import NeuralNet.Proofs.Block.Commit
import NeuralNet.Proofs.Block.Loading
import NeuralNet.Proofs.SafeTensors.Import
import NeuralNet.Proofs.Number.Order
import NeuralNet.Proofs.Number.Rounding
import NeuralNet.Proofs.DataType.Exact
import NeuralNet.Proofs.DataType.Projection
import NeuralNet.Proofs.DataType.Quantize
import NeuralNet.Proofs.Block.Restore
import NeuralNet.Proofs.Block.Sharing
import NeuralNet.Proofs.Block.Arrival
import NeuralNet.Proofs.Block.Keys
import NeuralNet.Proofs.Block.Resolve
import NeuralNet.Proofs.Layer.Width
import NeuralNet.Proofs.Layer.Parameters
import NeuralNet.Proofs.Block.OpenBatch
import NeuralNet.Proofs.Tape.Context
import NeuralNet.Proofs.Tape.Making
import NeuralNet.Proofs.Layer.Operations
import NeuralNet.Proofs.Layer.Recurrent
import NeuralNet.Proofs.Layer.Forward
import NeuralNet.Proofs.Layer.Inference
import NeuralNet.Proofs.Block.Forward
import NeuralNet.Proofs.Tape.Frame
import NeuralNet.Proofs.Block.Frame
import NeuralNet.Proofs.Session.Action
import NeuralNet.Proofs.Session.Law
import NeuralNet.Proofs.Optimizer.Run
import NeuralNet.Proofs.Optimizer.Repeats
import NeuralNet.Proofs.Session.Fits
import NeuralNet.Proofs.Session.Lifecycle
import NeuralNet.Proofs.Tape.OnTop
import NeuralNet.Proofs.Block.OnTop
import NeuralNet.Proofs.Training.OnTop
import NeuralNet.Proofs.Training.Inference
import NeuralNet.Proofs.Training.Frozen
import NeuralNet.Proofs.Tape.Computes
import NeuralNet.Proofs.Layer.Evaluation
import NeuralNet.Proofs.Block.Evaluation
import NeuralNet.Proofs.Block.Modes
import NeuralNet.Proofs.Block.Splice
import NeuralNet.Proofs.DenseArray.Index
import NeuralNet.Proofs.DenseArray.Samples
import NeuralNet.Proofs.Layer.Samples
import NeuralNet.Proofs.Block.Samples
import NeuralNet.Proofs.Dataset
import NeuralNet.Proofs.DenseArray.Judgement
import NeuralNet.Proofs.Training.Evaluation
import NeuralNet.Proofs.Training.BatchSize
import NeuralNet.Proofs.Text.Vocabulary
import NeuralNet.Proofs.Text.WordEmbedding
import NeuralNet.Proofs.Text.Corpus
import NeuralNet.Proofs.Number.Exact
import NeuralNet.Proofs.DenseArray.Entries
import NeuralNet.Proofs.Tape.Additive
import NeuralNet.Proofs.Tape.Order
import NeuralNet.Proofs.Tape.Paths
import NeuralNet.Proofs.Tape.Accumulate
import NeuralNet.Proofs.Tape.Sweep
import NeuralNet.Proofs.Tape.Turns
import NeuralNet.Proofs.Tape.Backward
import NeuralNet.Proofs.Tape.Repeated
import NeuralNet.Proofs.Tape.Values
import NeuralNet.Proofs.DenseArray.Sums
import NeuralNet.Proofs.DenseArray.Convolution
import NeuralNet.Proofs.DenseArray.Adjoint
import NeuralNet.Proofs.DenseArray.Tables
import NeuralNet.Proofs.Layer.EitherMode
import NeuralNet.Proofs.Layer.Recurrence
import NeuralNet.Proofs.Number.Real
import NeuralNet.Proofs.DenseArray.Normalization
import NeuralNet.Proofs.DenseArray.NormalizationGradient
import NeuralNet.Proofs.Tape.Normalize
import NeuralNet.Proofs.DenseArray.Broadcast
import NeuralNet.Proofs.DenseArray.Contraction
import NeuralNet.Proofs.DenseArray.CrossEntropy
import NeuralNet.Proofs.DenseArray.Labels
import NeuralNet.Proofs.Tape.Arithmetic
import NeuralNet.Proofs.Tape.Loss
import NeuralNet.Proofs.DenseArray.Reduction
import NeuralNet.Proofs.Tape.Reduction
import NeuralNet.Proofs.Optimizer.Moments
import NeuralNet.Proofs.DenseArray.Gather
import NeuralNet.Proofs.Tape.Amounts
import NeuralNet.Proofs.Tape.Gather
import NeuralNet.Proofs.Tape.Inverse
import NeuralNet.Proofs.Tape.Accepted
import NeuralNet.Proofs.Tape.Scatter
import NeuralNet.Proofs.Text.Words
import NeuralNet.Proofs.Text.Tally
import NeuralNet.Proofs.Text.Ranking
import NeuralNet.Proofs.Random.Shuffle
import NeuralNet.Proofs.Dataset.Epoch
import NeuralNet.Proofs.Training.History
import NeuralNet.Proofs.Shape
import NeuralNet.Proofs.Training.Settings
