import Freehand.Decimal.Rounding
import Freehand.Scalar.Binary64

/-!
# Decimals and binary floating point

A finite 64-bit floating-point number is `± m · 2 ^ q` with `m < 2 ^ 53` and `-1074 ≤ q`.

* `Binary64.ofRatio` rounds a fraction of natural numbers to the nearest such number, a tie going
  to the even `m`.  Neighbouring numbers have neighbouring bit patterns, so the pattern of the
  result is an integer sum, also where rounding carries into the next power of two, and patterns
  beyond the greatest finite one mean infinity.
* `Binary64.shortest?` looks for the decimal with the fewest digits that rounds back to a number,
  and takes the one nearest to the number if there are two, and the even one if both are equally
  near.  Seventeen digits always suffice.
-/

namespace Freehand

namespace Binary64

/-- The power of two with a natural exponent, or one if the exponent is negative. -/
def twoPow (e : Int) : Nat :=
  Nat.pow 2 e.toNat

/-! ## Decoding -/

/-- The magnitude `significand · 2 ^ exponent` of a finite number, with its sign. -/
structure Parts where
  /-- The sign bit. -/
  negative : Bool
  /-- The integer `m`. -/
  significand : Nat
  /-- The power of two `q`. -/
  exponent : Int

/-- The parts of a finite number. -/
def parts (x : Float) : Parts :=
  let bits : Nat := x.toBits.toNat
  let biased : Nat := bits / twoPow 52 % twoPow 11
  let field := bits % twoPow 52
  if biased = 0 then
    ⟨twoPow 63 ≤ bits, field, -1074⟩
  else
    ⟨twoPow 63 ≤ bits, field + twoPow 52, (biased : Int) - 1075⟩

/-- The magnitude of a finite number as a fraction. -/
def Parts.ratio (p : Parts) : Nat × Nat :=
  (p.significand * twoPow p.exponent, twoPow (-p.exponent))

/-- The number has its sign bit set. -/
def isNegative (x : Float) : Bool :=
  (parts x).negative

/-! ## Rounding -/

/-- The bit pattern of positive infinity. -/
def infinityBits : Nat :=
  0x7FF0000000000000

/-- The exponent of the leading bit of a positive fraction. -/
def leadingBit (num den : Nat) : Int :=
  let guess : Int := (num.log2 : Int) - den.log2
  if den * twoPow guess ≤ num * twoPow (-guess) then guess else guess - 1

/-- The bit pattern of the floating-point number nearest to a fraction. -/
def bitsOfRatio (num den : Nat) : Nat :=
  if num = 0 then
    0
  else
    let q := Max.max (leadingBit num den - 52) (-1074)
    let m := Decimal.roundDiv (num * twoPow (-q)) (den * twoPow q)
    Min.min ((q + 1074).toNat * twoPow 52 + m) infinityBits

/-- The floating-point number nearest to a fraction with a sign. -/
def ofRatio (negative : Bool) (num den : Nat) : Float :=
  Float.ofBits (UInt64.ofNat ((if negative then twoPow 63 else 0) + bitsOfRatio num den))

/-- The floating-point number nearest to a decimal.

A decimal whose leading digit stands far outside the range of the format is zero or infinite
without its power of ten being computed. -/
def ofDecimal (d : Decimal) : Float :=
  let leading := (Decimal.digitCount d.coefficient : Int) + d.exponent
  if d.coefficient = 0 ∨ leading < -400 then
    ofRatio d.negative 0 1
  else if 400 < leading then
    ofRatio d.negative (twoPow 1024) 1
  else
    ofRatio d.negative (d.coefficient * Decimal.tenPow d.exponent) (Decimal.tenPow (-d.exponent))

/-! ## Shortest decimals -/

/-- A decimal on the grid of `10 ^ e` that rounds to `x`.  Of the two neighbours of the magnitude
of `x` the nearer one is tried first, and the even one if they are equally near. -/
def onGrid? (x : Float) (num den : Nat) (e : Int) : Option Decimal :=
  let (n, d) := Decimal.scaleDown num den e
  let below := n / d
  let nearest := Decimal.roundDiv n d
  let other := if nearest = below then below + 1 else below
  let negative := isNegative x
  let fits (c : Nat) : Bool := (ofDecimal ⟨negative, c, e⟩).toBits == x.toBits
  (([nearest, other].find? fits).map fun c => Decimal.carried ⟨negative, c, e⟩)

/-- The shortest decimal that rounds to `x`, if `x` is finite. -/
def shortest? (x : Float) : Option Decimal :=
  if !x.isFinite then
    none
  else
    let (num, den) := (parts x).ratio
    if num = 0 then
      some ⟨isNegative x, 0, 0⟩
    else
      let lead := Decimal.leadingExponent num den
      (List.range 17).findSome? fun (n : Nat) => onGrid? x num den (lead - n)

end Binary64

instance : DecimalScalar Float where
  ofDecimal := Binary64.ofDecimal
  toDecimal? := Binary64.shortest?
  infinity := Float.ofBits (UInt64.ofNat Binary64.infinityBits)
  notANumber := 0.0 / 0.0

end Freehand
