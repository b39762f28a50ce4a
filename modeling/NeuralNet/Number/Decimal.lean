import NeuralNet.Number.Single

/-!
Decimal text of binary floating-point numbers: the fewest digits that read back, the nearest such
digits among equals, and the layouts in which they are written. Reading rounds the exact decimal.
-/

namespace NeuralNet

/-- The number `digits * 10 ^ exponent`. -/
structure Decimal where
  digits : Nat
  exponent : Int
  deriving DecidableEq, Repr

namespace Decimal

def tenTo (k : Nat) : Nat := Nat.pow 10 k

/-- The decimal as a ratio of two naturals. -/
def ratio (d : Decimal) : Nat × Nat :=
  (d.digits * tenTo d.exponent.toNat, tenTo (-d.exponent).toNat)

/-- A half between two neighbouring decimals goes to the even digit or away from zero. -/
inductive Tie where
  | toEven
  | away
  deriving DecidableEq, Repr

/-- The numbers that round to `significand * 2 ^ exponent`, in quarters of its last bit. The gap
below the least significand of a binade is half as wide; the ends belong to even significands. -/
structure Interval where
  centre : Nat
  low : Nat
  high : Nat
  closed : Bool
  /-- A quarter of the last bit, as a ratio. -/
  num : Nat
  den : Nat

def Interval.of (f : BinaryFormat) (significand : Nat) (exponent : Int) : Interval :=
  let narrow := significand == 1 <<< f.fractionBits && f.minExponent < exponent
  let (num, den) := Datum.ratio 1 (exponent - 2)
  ⟨4 * significand, 4 * significand - (if narrow then 1 else 2), 4 * significand + 2,
    significand % 2 == 0, num, den⟩

/-- Whether `digits * 10 ^ exponent` lies in the interval. -/
def Interval.contains (i : Interval) (d : Decimal) : Bool :=
  let (n, m) := d.ratio
  let x := n * i.den
  let unit := m * i.num
  if i.closed then i.low * unit ≤ x && x ≤ i.high * unit
  else i.low * unit < x && x < i.high * unit

/-- The neighbours of the centre on the grid of multiples of `10 ^ exponent`, the nearer first if
both read back. -/
def Interval.onGrid? (i : Interval) (tie : Tie) (exponent : Int) : Option Decimal :=
  let num := i.centre * i.num * tenTo (-exponent).toNat
  let den := i.den * tenTo exponent.toNat
  let q := num / den
  let r := num % den
  let below : Decimal := ⟨q, exponent⟩
  let above : Decimal := ⟨q + 1, exponent⟩
  let up := den < 2 * r || (2 * r == den && (tie == .away || q % 2 == 1))
  match i.contains below && q != 0, i.contains above with
  | true, true => if up then some above else some below
  | true, false => some below
  | false, true => some above
  | false, false => none

/-- The first grid, from coarse to fine, with a decimal that reads back. -/
def Interval.search (i : Interval) (tie : Tie) : Nat → Int → Decimal
  | 0, exponent => ⟨i.centre, exponent⟩
  | fuel + 1, exponent =>
    match i.onGrid? tie exponent with
    | some d => d
    | none => i.search tie fuel (exponent - 1)

/-- Drops the zeros at the end of the digits. -/
def trim : Nat → Decimal → Decimal
  | 0, d => d
  | fuel + 1, d =>
    if d.digits ≠ 0 ∧ d.digits % 10 = 0 then trim fuel ⟨d.digits / 10, d.exponent + 1⟩ else d

/-- The greatest `k` with `10 ^ k ≤ num / den`, found from the lengths of the two. -/
def floorLog10 (num den : Nat) : Int :=
  let k : Int := (Nat.toDigits 10 num).length - (Nat.toDigits 10 den).length
  if den * tenTo k.toNat ≤ num * tenTo (-k).toNat then k else k - 1

/-- The fewest digits that read back as `significand * 2 ^ exponent`. -/
def shortest (f : BinaryFormat) (tie : Tie) (significand : Nat) (exponent : Int) : Decimal :=
  if significand = 0 then ⟨0, 0⟩
  else
    let i := Interval.of f significand exponent
    trim 400 (i.search tie 20 (floorLog10 (i.centre * i.num) i.den + 1))

/-- When a layout leaves positional notation. `point` is the place of the decimal point counted
from the first digit. -/
structure Layout where
  tie : Tie
  positional : (point : Int) → Bool
  /-- Whether a whole number ends in `.0`. -/
  pointZero : Bool
  /-- Whether a positive exponent has a sign. -/
  plusSign : Bool
  nan : String
  infinity : String

/-- Positional at every size. -/
def plain : Layout := ⟨.away, fun _ => true, false, false, "NaN", "inf"⟩

/-- Positional from `0.0001` up to `10^16`. -/
def diagnostic : Layout :=
  ⟨.away, fun point => -4 < point && point ≤ 16, true, false, "NaN", "inf"⟩

/-- Positional from `0.000001` up to `10^13`; what is not a number becomes `null`. -/
def interchange : Layout :=
  ⟨.toEven, fun point => -6 < point && point ≤ 13, true, true, "null", "null"⟩

def zeros (n : Nat) : String := String.ofList (List.replicate n '0')

/-- The digits with the point at its place. -/
def positionalText (pointZero : Bool) (digits : String) (point : Int) : String :=
  let n := digits.length
  if point ≤ 0 then "0." ++ zeros (-point).toNat ++ digits
  else if point < n then
    String.ofList (digits.toList.take point.toNat) ++ "." ++
      String.ofList (digits.toList.drop point.toNat)
  else digits ++ zeros (point.toNat - n) ++ (if pointZero then ".0" else "")

/-- One digit before the point, then the power of ten. -/
def scientificText (plusSign : Bool) (digits : String) (point : Int) : String :=
  let rest := digits.toList.drop 1
  let sign := if plusSign && 0 < point then "+" else ""
  String.ofList (digits.toList.take 1) ++ (if rest.isEmpty then "" else "." ++ String.ofList rest)
    ++ "e" ++ sign ++ toString (point - 1)

def text (l : Layout) (f : BinaryFormat) (d : Datum) : String :=
  match d with
  | .nan _ _ => l.nan
  | .infinity negative => if negative && l.infinity != l.nan then "-" ++ l.infinity else l.infinity
  | .finite negative significand exponent =>
    let d := shortest f l.tie significand exponent
    let digits := toString d.digits
    let sign := if negative then "-" else ""
    let point := digits.length + d.exponent
    if significand = 0 then sign ++ (if l.pointZero then "0.0" else "0")
    else if l.positional point then sign ++ positionalText l.pointZero digits point
    else sign ++ scientificText l.plusSign digits point

/-- The nearest word of a format. -/
def toWord (f : BinaryFormat) (negative : Bool) (d : Decimal) : Nat :=
  let (num, den) := d.ratio
  f.signWord negative + f.roundMagnitude num den

end Decimal

namespace Single

/-- The shortest decimal, always positional. -/
def text (a : Single) : String := Decimal.text Decimal.plain .single a.datum

/-- The shortest decimal with a point or an exponent. -/
def diagnosticText (a : Single) : String := Decimal.text Decimal.diagnostic .single a.datum

/-- The shortest decimal as it stands in an interchange document. -/
def interchangeText (a : Single) : String := Decimal.text Decimal.interchange .single a.datum

/-- A decimal rounded to double precision, then to single. -/
def ofDecimal (negative : Bool) (d : Decimal) : Single :=
  ⟨(BinaryFormat.convert .double .single (d.toWord .double negative)).toUInt32⟩

end Single

end NeuralNet
