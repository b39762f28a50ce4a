import NeuralNet.Number.Single
import NeuralNet.Random.Keystream

/-!
Numbers drawn from the keystream: uniform, normal, and a coin that comes down one way with a given
probability. Where a draw may be refused and repeated, the repetitions are bounded; the bound is
never met in practice.
-/

namespace NeuralNet.Draw

/-- How often a refused draw is repeated. -/
def attempts : Nat := 100000

/-- Repeats a draw until it gives something. -/
def untilSome {α : Type} (draw : Draw (Option α)) (otherwise : α) : (attempts : Nat) → Draw α
  | 0 => pure otherwise
  | attempts + 1 => do
    match ← draw with
    | some a => return a
    | none => untilSome draw otherwise attempts

/-! Uniform -/

/-- The greatest number below 1 that a draw of 23 bits gives. -/
def lastFraction : Single := ⟨0x3f7ffffe⟩

/-- The greatest width up to `width` with which no draw reaches the upper end. -/
def fitWidth (low high width : Single) : Single :=
  if width.bits = 0 then width
  else if high.le (width * lastFraction + low) then fitWidth low high ⟨width.bits - 1⟩
  else width
termination_by width.bits.toNat
decreasing_by
  have h : width.bits ≠ 0 := by assumption
  have h0 : width.bits.toNat ≠ 0 := fun e => h (UInt32.toNat_inj.1 (by simpa using e))
  rw [UInt32.toNat_sub_of_le _ _ (by
    rw [UInt32.le_iff_toNat_le]; simp; omega)]
  simp
  omega

/-- A number from `-scale` up to `scale`. -/
def uniform (scale : Single) : Draw Single := do
  let low := -scale
  let width := fitWidth low scale (scale - low)
  let fraction : Single := ⟨((← word) >>> 9) ||| 0x3f800000⟩
  return (fraction - .one) * width + low

/-! Normal -/

/-- Where the tail of the bell curve is cut off. -/
def tailStart : Float := 3.654152885361008796

/-- The area of every layer under the curve. -/
def layerArea : Float := 0.004928673233974658

def bell (x : Float) : Float := Float.exp (-x * x / 2)

/-- The right ends of the layers, from the one that holds the tail to the peak. -/
def layerEnds : Array Float :=
  (List.range 254).foldl
    (fun ends _ =>
      let x := ends.back?.getD 0
      ends.push (Float.sqrt (-2 * Float.log (layerArea / x + bell x))))
    #[layerArea / bell tailStart, tailStart] |>.push 0

def layerEnd (i : Nat) : Float := layerEnds.getD i 0

def layerHeights : Array Float := layerEnds.map bell

def layerHeight (i : Nat) : Float := layerHeights.getD i 0

/-- The double-precision number with 52 given bits after the point and a given leading word. -/
def withFraction (lead bits : UInt64) : Float := Float.ofBits (lead ||| (bits >>> 12))

/-- A number strictly between 0 and 1. -/
def openFraction : Draw Float := do
  return withFraction 0x3ff0000000000000 (← longWord) - Float.ofBits 0x3fefffffffffffff

/-- A number from 0 up to 1 with 53 bits. -/
def fraction53 : Draw Float := do
  return Float.ofNat ((← longWord) >>> 11).toNat * Float.ofBits 0x3ca0000000000000

/-- A number from the tail of the bell curve, on the side of `u`. -/
def tail (u : Float) : Draw Float :=
  untilSome (do
    let a := Float.log (← openFraction) / tailStart
    let c := Float.log (← openFraction)
    if -2 * c < a * a then return none
    else return some (if u < 0 then a - tailStart else tailStart - a)) 0 attempts

/-- A number under the bell curve: a layer and a place in it are drawn; a place beside the next
layer is kept if a second draw falls below the curve. -/
def standardNormal : Draw Float :=
  untilSome (do
    let bits ← longWord
    let i := (bits &&& 0xff).toNat
    let u := withFraction 0x4000000000000000 bits - 3
    let x := u * layerEnd i
    if x.abs < layerEnd (i + 1) then return some x
    else if i = 0 then return some (← tail u)
    else
      let height :=
        layerHeight (i + 1) + (layerHeight i - layerHeight (i + 1)) * (← fraction53)
      return if height < bell x then some x else none) 0 attempts

/-- A normal number with mean 0 and spread `sigma`. -/
def normal (sigma : Single) : Draw Single := do
  let z ← standardNormal
  return .zero + sigma * ⟨(BinaryFormat.convert .double .single z.toBits.toNat).toUInt32⟩

/-! Coin -/

/-- `probability * 2 ^ 64`, rounded down. -/
def threshold (probability : Single) : Nat :=
  match probability.datum with
  | .finite false significand exponent =>
    let (num, den) := Datum.ratio significand exponent
    (num <<< 64) / den
  | _ => 0

/-- True with the given probability; nothing is drawn for what is certain. -/
def coin (probability : Single) : Draw Bool := do
  if probability = .one then return true
  else return (← longWord).toNat < threshold probability

/-! Order -/

/-- A number below `bound`, every one as likely: a word scaled to the bound, refused if it falls
into the incomplete last round. -/
def below (bound : Nat) : Draw Nat :=
  let r := bound.toUInt32
  let zone := (0x100000000 >>> (Nat.log2 bound + 1)) * bound - 1
  untilSome (do
    let product := (← word).toNat * r.toNat
    if product % 0x100000000 ≤ zone then return some (product >>> 32) else return none) 0 attempts

/-- Exchanges two entries. -/
def exchange (order : Array Nat) (i j : Nat) : Array Nat := order.swapIfInBounds i j

/-- Exchanges every entry, from the last to the second, with one that does not come after it. -/
def shuffleFrom : (last : Nat) → Array Nat → Draw (Array Nat)
  | 0, order => pure order
  | last + 1, order => do
    let j ← below (last + 2)
    shuffleFrom last (exchange order (last + 1) j)

/-- The numbers below `count` in random order. -/
def shuffled (count : Nat) : Draw (Array Nat) :=
  shuffleFrom (count - 1) (Array.range count)

end NeuralNet.Draw
