namespace NeuralNet

/-- Keys with their values, in the order in which they were added. A key may occur more than once;
the first occurrence answers. -/
structure Pairs (κ ν : Type) where
  toList : List (κ × ν)
  deriving DecidableEq, Repr

namespace Pairs

variable {κ ν : Type}

def empty : Pairs κ ν := ⟨[]⟩

def ofList (entries : List (κ × ν)) : Pairs κ ν := ⟨entries⟩

def add (p : Pairs κ ν) (key : κ) (value : ν) : Pairs κ ν := ⟨p.toList ++ [(key, value)]⟩

def extend (p : Pairs κ ν) (entries : List (κ × ν)) : Pairs κ ν := ⟨p.toList ++ entries⟩

def size (p : Pairs κ ν) : Nat := p.toList.length

def keys (p : Pairs κ ν) : List κ := p.toList.map (·.1)

def values (p : Pairs κ ν) : List ν := p.toList.map (·.2)

def get? [BEq κ] (p : Pairs κ ν) (key : κ) : Option ν := p.toList.lookup key

def indexOf? [BEq κ] (p : Pairs κ ν) (key : κ) : Option Nat := p.keys.findIdx? (· == key)

def contains [BEq κ] (p : Pairs κ ν) (key : κ) : Bool := p.keys.any (· == key)

@[simp]
theorem toList_add (p : Pairs κ ν) (key : κ) (value : ν) :
    (p.add key value).toList = p.toList ++ [(key, value)] := rfl

@[simp]
theorem keys_add (p : Pairs κ ν) (key : κ) (value : ν) :
    (p.add key value).keys = p.keys ++ [key] := by
  simp [keys]

end Pairs

end NeuralNet
