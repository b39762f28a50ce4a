/-!
Binary floating-point words as exact numbers, and back: reading a word is exact, writing a number
rounds it to the nearest word, ties to the even one. Magnitudes are ordered as their words are, so
rounding is division with a remainder and carries need no case of their own.
-/

namespace NeuralNet

/-- A sign bit, then the exponent, then the fraction. -/
structure BinaryFormat where
  exponentBits : Nat
  fractionBits : Nat
  deriving DecidableEq, Repr

/-- What a word stands for. A finite number is `significand * 2 ^ exponent`; the payload of a NaN is
its fraction with the highest bit first, 52 bits wide in every format. -/
inductive Datum where
  | nan (negative : Bool) (payload : Nat)
  | infinity (negative : Bool)
  | finite (negative : Bool) (significand : Nat) (exponent : Int)
  deriving DecidableEq, Repr

namespace Datum

/-- A quiet NaN has the highest bit of its payload set. -/
def quiet : Datum → Datum
  | nan s p => nan s (p ||| 1 <<< 51)
  | d => d

/-- The exact ratio of two naturals that a magnitude is. -/
def ratio (significand : Nat) (exponent : Int) : Nat × Nat :=
  (significand <<< exponent.toNat, 1 <<< (-exponent).toNat)

end Datum

namespace BinaryFormat

def half : BinaryFormat := ⟨5, 10⟩

def single : BinaryFormat := ⟨8, 23⟩

def double : BinaryFormat := ⟨11, 52⟩

/-- The exponent field of infinities and NaNs. -/
def topExponent (f : BinaryFormat) : Nat := (1 <<< f.exponentBits) - 1

/-- The exponent of the last fraction bit of the smallest numbers. -/
def minExponent (f : BinaryFormat) : Int :=
  2 - (1 <<< (f.exponentBits - 1) : Nat) - f.fractionBits

def signWord (f : BinaryFormat) (negative : Bool) : Nat :=
  if negative then 1 <<< (f.exponentBits + f.fractionBits) else 0

def infinityWord (f : BinaryFormat) : Nat := f.topExponent <<< f.fractionBits

def read (f : BinaryFormat) (word : Nat) : Datum :=
  let negative := (word >>> (f.exponentBits + f.fractionBits)) % 2 == 1
  let exponent := (word >>> f.fractionBits) % (1 <<< f.exponentBits)
  let fraction := word % (1 <<< f.fractionBits)
  if exponent = f.topExponent then
    if fraction = 0 then .infinity negative
    else .nan negative (fraction <<< (52 - f.fractionBits))
  else if exponent = 0 then .finite negative fraction f.minExponent
  else .finite negative ((1 <<< f.fractionBits) + fraction) (f.minExponent + (exponent - 1))

/-- The quotient rounded to the nearest natural, a half to the even one. -/
def divEven (num den : Nat) : Nat :=
  let q := num / den
  let r := num % den
  if 2 * r < den then q else if 2 * r = den then q + q % 2 else q + 1

/-- The greatest `k` with `2 ^ k ≤ num / den`, for positive arguments. -/
def floorLog (num den : Nat) : Int :=
  let k : Int := num.log2 - den.log2
  if den <<< k.toNat ≤ num <<< (-k).toNat then k else k - 1

/-- The word of the nearest magnitude; one too great for the format becomes infinity. -/
def roundMagnitude (f : BinaryFormat) (num den : Nat) : Nat :=
  if num = 0 then 0
  else
    let e := max f.minExponent (floorLog num den - f.fractionBits)
    let q := divEven (num <<< (-e).toNat) (den <<< e.toNat)
    min ((e - f.minExponent).toNat <<< f.fractionBits + q) f.infinityWord

/-- The ratio that a finite magnitude stands for. -/
def magnitudeRatio (f : BinaryFormat) (magnitude : Nat) : Nat × Nat :=
  match f.read magnitude with
  | .finite _ significand exponent => Datum.ratio significand exponent
  | _ => (0, 1)

/-- The nearest magnitude to the product of two finite ones. -/
def product (f : BinaryFormat) (a b : Nat) : Nat :=
  let (m, n) := f.magnitudeRatio a
  let (p, q) := f.magnitudeRatio b
  f.roundMagnitude (m * p) (n * q)

/-- The nearest magnitude to the quotient of two finite ones. -/
def quotient (f : BinaryFormat) (a b : Nat) : Nat :=
  let (m, n) := f.magnitudeRatio a
  let (p, q) := f.magnitudeRatio b
  f.roundMagnitude (m * q) (n * p)

def write (f : BinaryFormat) : Datum → Nat
  | .nan negative payload =>
    f.signWord negative + f.infinityWord + payload >>> (52 - f.fractionBits)
  | .infinity negative => f.signWord negative + f.infinityWord
  | .finite negative significand exponent =>
    let (num, den) := Datum.ratio significand exponent
    f.signWord negative + f.roundMagnitude num den

/-- A word of one format as the nearest word of another; NaNs become quiet. -/
def convert (source target : BinaryFormat) (word : Nat) : Nat :=
  target.write (source.read word).quiet

end BinaryFormat

end NeuralNet
