namespace NeuralNet

/-- The extents of an array, outermost axis first. -/
abbrev Extents := List Nat

namespace Extents

/-- How many elements an array of these extents holds. -/
def size : Extents → Nat
  | [] => 1
  | n :: rest => n * size rest

/-- Row-major position of an index. -/
def ravel : Extents → List Nat → Nat
  | _ :: rest, i :: is => i * size rest + ravel rest is
  | _, _ => 0

/-- The index at a row-major position. -/
def unravel : Extents → Nat → List Nat
  | [], _ => []
  | _ :: rest, k => k / size rest :: unravel rest (k % size rest)

/-- Whether an index has one entry per axis, each below the extent. -/
def Contains : Extents → List Nat → Prop
  | [], [] => True
  | n :: rest, i :: is => i < n ∧ Contains rest is
  | _, _ => False

instance decidableContains : (s : Extents) → (i : List Nat) → Decidable (s.Contains i)
  | [], [] => isTrue trivial
  | n :: rest, i :: is => by
    haveI := decidableContains rest is
    exact inferInstanceAs (Decidable (i < n ∧ Contains rest is))
  | [], _ :: _ => isFalse id
  | _ :: _, [] => isFalse id

/-- An array is addressable when its non-empty axes multiply to less than `2 ^ 63`. No memory holds
more values than that. Where a theorem asks it of the arrays that a run makes, it leaves out no run
that a machine could finish. -/
def addressable (s : Extents) : Bool := size (s.filter (· ≠ 0)) < 0x8000000000000000

/-- A product of less than 65 bits. -/
def checkedMul (a b : Nat) : Option Nat :=
  if a * b < 0x10000000000000000 then some (a * b) else none

/-- The number of elements, unless a product on the way to it overflows. -/
def checkedSize? (s : Extents) : Option Nat := s.foldlM checkedMul 1

def text (s : Extents) : String := "[" ++ ", ".intercalate (s.map toString) ++ "]"

theorem size_append (a b : Extents) : size (a ++ b) = size a * size b := by
  induction a with
  | nil => simp [size]
  | cons n rest ih => simp [size, ih, Nat.mul_assoc]

theorem ravel_lt_size {s : Extents} {i : List Nat} (h : s.Contains i) : s.ravel i < s.size := by
  induction s generalizing i with
  | nil => cases i <;> simp_all [Contains, ravel, size]
  | cons n rest ih =>
    cases i with
    | nil => simp [Contains] at h
    | cons j js =>
      have hr := ih h.2
      calc j * size rest + ravel rest js < j * size rest + size rest := by omega
        _ = (j + 1) * size rest := by rw [Nat.succ_mul]
        _ ≤ n * size rest := Nat.mul_le_mul_right _ h.1

theorem contains_unravel {s : Extents} {k : Nat} (h : k < s.size) : s.Contains (s.unravel k) := by
  induction s generalizing k with
  | nil => trivial
  | cons n rest ih =>
    have hpos : 0 < size rest := by
      rcases Nat.eq_zero_or_pos (size rest) with h0 | h0
      · simp [size, h0] at h
      · exact h0
    refine ⟨?_, ih (Nat.mod_lt _ hpos)⟩
    exact Nat.div_lt_of_lt_mul (by simpa [size, Nat.mul_comm] using h)

@[simp]
theorem ravel_unravel {s : Extents} {k : Nat} (h : k < s.size) : s.ravel (s.unravel k) = k := by
  induction s generalizing k with
  | nil => simp [size] at h; simp [ravel, h]
  | cons n rest ih =>
    have hpos : 0 < size rest := by
      rcases Nat.eq_zero_or_pos (size rest) with h0 | h0
      · simp [size, h0] at h
      · exact h0
    rw [unravel, ravel, ih (Nat.mod_lt _ hpos), Nat.mul_comm]
    exact Nat.div_add_mod k (size rest)

@[simp]
theorem unravel_ravel {s : Extents} {i : List Nat} (h : s.Contains i) :
    s.unravel (s.ravel i) = i := by
  induction s generalizing i with
  | nil => cases i <;> simp_all [Contains, unravel]
  | cons n rest ih =>
    cases i with
    | nil => simp [Contains] at h
    | cons j js =>
      have hr := ravel_lt_size h.2
      have hpos : 0 < size rest := by omega
      have hd : (j * size rest + ravel rest js) / size rest = j := by
        rw [Nat.mul_comm, Nat.mul_add_div hpos, Nat.div_eq_of_lt hr, Nat.add_zero]
      have hm : (j * size rest + ravel rest js) % size rest = ravel rest js := by
        rw [Nat.mul_comm, Nat.mul_add_mod, Nat.mod_eq_of_lt hr]
      rw [ravel, unravel, hd, hm, ih h.2]

end Extents

end NeuralNet
