import NeuralNet.Number.Decimal

/-!
The number that written digits stand for, in double precision. As many digits count as 64 bits hold;
what they make is rounded, and then multiplied or divided by powers of ten that are rounded
themselves. So the result need not be the double next to what is written.
-/

namespace NeuralNet

/-- A number as it is written: the digits before and after the point, and the power of ten. -/
structure WrittenNumber where
  negative : Bool
  whole : List Nat
  fraction : List Nat
  exponent : Option Int
  deriving DecidableEq, Repr

namespace WrittenNumber

/-- One more than the greatest number of 64 bits. -/
def wordLimit : Nat := 0x10000000000000000

/-- The greatest power of ten that a double is used for. -/
def maxPower : Nat := 308

/-- Whether there is neither a point nor a power of ten. -/
def isWhole (w : WrittenNumber) : Bool := w.fraction.isEmpty && w.exponent.isNone

/-- Appends digits to a number as long as it stays below the limit; gives also how many these are,
counted from `count` on. -/
def append : List Nat → (n count : Nat) → Nat × Nat
  | [], n, count => (n, count)
  | d :: ds, n, count =>
    if 10 * n + d < wordLimit then append ds (10 * n + d) (count + 1) else (n, count)

/-- The natural number before the point, if it fits. -/
def wholePart? (w : WrittenNumber) : Option Nat :=
  let (n, taken) := append w.whole 0 0
  if taken = w.whole.length then some n else none

/-- The digits that count. Left-out ones before the point still shift those that stand, and digits
after the point may follow on them. -/
def significant (w : WrittenNumber) : Decimal :=
  let (n, taken) := append w.whole 0 0
  let (m, places) := append w.fraction n 0
  ⟨m, w.exponent.getD 0 + (w.whole.length - taken : Nat) - places⟩

/-- The double next to a power of ten. -/
def powerWord (k : Nat) : Nat := BinaryFormat.double.roundMagnitude (Decimal.tenTo k) 1

/-- The magnitude of a decimal; none if it is too great. One step multiplies or divides by no more
than the greatest power. A second one divides what is very small, and a third would leave 0. -/
def magnitude? (d : Decimal) : Option Nat :=
  let digits := BinaryFormat.double.roundMagnitude d.digits 1
  let divide := BinaryFormat.double.quotient
  match d.exponent with
  | .ofNat k =>
    if d.digits = 0 then some 0
    else if k ≤ maxPower then
      let product := BinaryFormat.double.product digits (powerWord k)
      if product = BinaryFormat.double.infinityWord then none else some product
    else none
  | .negSucc k =>
    let k := k + 1
    if k ≤ maxPower then some (divide digits (powerWord k))
    else if k ≤ 2 * maxPower then
      some (divide (divide digits (powerWord maxPower)) (powerWord (k - maxPower)))
    else some 0

/-- The double-precision word of a written number, unless the number is too great for one. -/
def toDouble? (w : WrittenNumber) : Option Nat :=
  (magnitude? w.significant).map (BinaryFormat.double.signWord w.negative + ·)

end WrittenNumber

end NeuralNet
