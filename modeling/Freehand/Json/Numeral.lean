import Freehand.Json.Basic

/-!
# Numbers as scalars

The scalar that a JSON number is read as.  The reading is quick and not exact.

* Digits are taken in order as long as the number they form fits a 64-bit word.  A whole digit left
  out raises the power of ten by one, and a digit of the fraction left out changes nothing.
* The word is rounded to a scalar and then multiplied or divided by a power of ten, where it is
  rounded again.  So the result may differ from the nearest scalar in its last digits.
* A number beyond the greatest scalar is refused.  One below the least is a zero with its sign.
-/

namespace Freehand.Numeral

/-! ## The digits that fit a word -/

/-- Append digits to a number as long as it fits a 64-bit word, and give the digits left out. -/
def absorb (n : Nat) : List Char → Nat × List Char
  | [] => (n, [])
  | c :: cs =>
    let next := 10 * n + Decimal.value [c]
    if next < UInt64.size then absorb next cs else (n, c :: cs)

/-- The decimal that the digits taken form.  The fraction goes on where the whole part ended. -/
def leading (n : Numeral) : Decimal :=
  let (m, wholeRest) := absorb 0 n.whole
  let (m, fractionRest) := absorb m n.fraction
  let shift : Int := (wholeRest.length + fractionRest.length : Int) - n.fraction.length
  ⟨n.negative, m, shift + (Decimal.signed? n.exponent).getD 0⟩

/-! ## Powers of ten -/

variable {R : Type} [DecimalScalar R]

/-- The greatest exponent for which ten has a power among the 64-bit floating-point numbers. -/
def greatestTenPow : Nat :=
  308

/-- A power of ten as a scalar. -/
def tenPow (k : Nat) : R :=
  DecimalScalar.ofDecimal ⟨false, 1, k⟩

/-- The scalar `a · 10 ^ e`, if it is in range.  A division by a power of ten that is no scalar is
done in steps, which end at zero. -/
def scaled? (a : R) (e : Int) : Option R :=
  if e.natAbs ≤ greatestTenPow then
    if 0 ≤ e then
      let v := a * tenPow e.natAbs
      if Scalar.isFinite v then some v else none
    else
      some (a / tenPow e.natAbs)
  else if a == 0 then
    some a
  else if 0 ≤ e then
    none
  else
    scaled? (a / tenPow greatestTenPow) (e + greatestTenPow)
termination_by e.natAbs
decreasing_by simp only [greatestTenPow] at *; omega

/-- The scalar that a number is read as, if it is in range. -/
def scalar? (n : Numeral) : Option R :=
  let d := n.leading
  let word : R := DecimalScalar.ofDecimal ⟨false, d.coefficient, 0⟩
  (scaled? word d.exponent).map fun v => if d.negative then -v else v

end Freehand.Numeral
