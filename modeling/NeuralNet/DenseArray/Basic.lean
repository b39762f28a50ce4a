import NeuralNet.Error
import NeuralNet.Number.Scalar

/-!
Arrays of any rank. An array is its extents and its values in row-major order, and the two agree.
Almost every array is made by `generate` from what stands at each index; `collect` adds up terms at
the indices where they belong.
-/

namespace NeuralNet

structure DenseArray (α : Type) where
  extents : Extents
  values : Array α
  size_eq : values.size = extents.size
  deriving DecidableEq, Repr

namespace DenseArray

variable {α β : Type}

def size (a : DenseArray α) : Nat := a.values.size

def rank (a : DenseArray α) : Nat := a.extents.length

def toList (a : DenseArray α) : List α := a.values.toList

/-- The array with the value `f i` at every index `i`. -/
def generate (s : Extents) (f : List Nat → α) : DenseArray α :=
  ⟨s, Array.ofFn fun k : Fin s.size => f (s.unravel k), by simp⟩

def full (s : Extents) (a : α) : DenseArray α := ⟨s, Array.replicate s.size a, by simp⟩

def zeros [Zero α] (s : Extents) : DenseArray α := full s 0

def ones [One α] (s : Extents) : DenseArray α := full s 1

def scalar (a : α) : DenseArray α := ⟨[], #[a], rfl⟩

/-- A list as an array with one axis. -/
def ofVector (values : List α) : DenseArray α :=
  ⟨[values.length], values.toArray, by simp [Extents.size]⟩

instance : Inhabited (DenseArray α) := ⟨⟨[0], #[], by simp [Extents.size]⟩⟩

/-- The value at a row-major position, 0 past the end. -/
def entry [Zero α] (a : DenseArray α) (k : Nat) : α := a.values[k]?.getD 0

/-- The value at an index. -/
def get [Zero α] (a : DenseArray α) (i : List Nat) : α := a.entry (a.extents.ravel i)

/-- An array of given extents, if there are exactly as many values as it needs. -/
def ofList (s : Extents) (values : List α) : Except Error (DenseArray α) :=
  if !s.addressable then .error (.array .overflow)
  else if h : values.length = s.size then .ok ⟨s, values.toArray, by simpa using h⟩
  else if values.length < s.size then .error (.array .tooFewValues)
  else .error (.array .incompatibleExtents)

/-- The same values in row-major order with other extents. -/
def regroup (a : DenseArray α) (s : Extents) : Except Error (DenseArray α) :=
  if h : a.extents.size = s.size then .ok ⟨s, a.values, a.size_eq.trans h⟩
  else .error (.array .incompatibleExtents)

/-- The values by their row-major positions, where other extents are known to have as many. -/
def relaid [Zero α] (a : DenseArray α) (s : Extents) : DenseArray α :=
  generate s fun i => a.entry (s.ravel i)

def map (f : α → β) (a : DenseArray α) : DenseArray β :=
  ⟨a.extents, a.values.map f, by simp [a.size_eq]⟩

/-- Combines values at equal positions; the extents are those of the first array. -/
def zipWith [Zero α] [Zero β] {γ : Type} (f : α → β → γ) (a : DenseArray α) (b : DenseArray β) :
    DenseArray γ :=
  ⟨a.extents, Array.ofFn fun k : Fin a.extents.size => f (a.entry k) (b.entry k), by simp⟩

def sum [Zero α] [Add α] (a : DenseArray α) : α := Scalar.sumUpTo a.size a.entry

/-- Writes new values over the first ones. -/
def overwrite (a : DenseArray α) (values : List α) : DenseArray α :=
  ⟨a.extents, (values.take a.size).toArray ++ a.values.extract (min values.length a.size) a.size, by
    simp [size, a.size_eq]; omega⟩

/-- The array whose value at an index is the sum of the terms placed there, in their order. -/
def collect [Zero α] [Add α] (s : Extents) (count : Nat) (place : Nat → Option (List Nat))
    (term : Nat → α) : DenseArray α :=
  let values := (List.range count).foldl (fun (acc : { v : Array α // v.size = s.size }) j =>
    match place j with
    | some i => ⟨acc.1.modify (s.ravel i) (· + term j), by simp [acc.2]⟩
    | none => acc) ⟨Array.replicate s.size 0, by simp⟩
  ⟨s, values.1, values.2⟩

/-- At every index `i` the value that `a` has at `place i`. -/
def gather [Zero α] (a : DenseArray α) (s : Extents) (place : List Nat → List Nat) : DenseArray α :=
  generate s fun i => a.get (place i)

@[simp]
theorem extents_generate (s : Extents) (f : List Nat → α) : (generate s f).extents = s := rfl

@[simp]
theorem extents_map (f : α → β) (a : DenseArray α) : (a.map f).extents = a.extents := rfl

@[simp]
theorem extents_gather [Zero α] (a : DenseArray α) (s : Extents) (place : List Nat → List Nat) :
    (a.gather s place).extents = s := rfl

theorem get_generate [Zero α] {s : Extents} {i : List Nat} (h : s.Contains i) (f : List Nat → α) :
    (generate s f).get i = f i := by
  have hk := Extents.ravel_lt_size h
  have hi := Extents.unravel_ravel h
  simp [get, entry, generate, hk, hi]

theorem get_gather [Zero α] {s : Extents} {i : List Nat} (h : s.Contains i) (a : DenseArray α)
    (place : List Nat → List Nat) : (a.gather s place).get i = a.get (place i) :=
  get_generate h _

end DenseArray

end NeuralNet
