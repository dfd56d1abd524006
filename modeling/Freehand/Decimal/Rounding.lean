import Freehand.Decimal.Basic

/-!
# Rounding fractions

A fraction of natural numbers is rounded to a whole number, a tie going to the even neighbour.
Rounding on a grid of powers of ten serves both for printing to a given number of places and for
finding the shortest decimal of a binary number.
-/

namespace Freehand.Decimal

/-- The whole number nearest to `num / den`, the even one of two. -/
def roundDiv (num den : Nat) : Nat :=
  let q := num / den
  let twice := 2 * (num % den)
  if twice < den then q else if den < twice then q + 1 else q + q % 2

/-- The power of ten with a natural exponent, or one if the exponent is negative. -/
def tenPow (e : Int) : Nat :=
  Nat.pow 10 e.toNat

/-- The fraction `num / den` divided by `10 ^ e`, as numerator and denominator. -/
def scaleDown (num den : Nat) (e : Int) : Nat × Nat :=
  (num * tenPow (-e), den * tenPow e)

/-- The fraction `num / den` is at least `10 ^ e`. -/
def atLeastTenPow (num den : Nat) (e : Int) : Bool :=
  let (n, d) := scaleDown num den e
  d ≤ n

/-- The exponent of the leading digit of a positive fraction. -/
def leadingExponent (num den : Nat) : Int :=
  let guess : Int := (digitCount num : Int) - digitCount den
  if atLeastTenPow num den guess then guess else guess - 1

/-- The multiple of `10 ^ e` nearest to `num / den`, counted in units of `10 ^ e`. -/
def roundAt (num den : Nat) (e : Int) : Nat :=
  let (n, d) := scaleDown num den e
  roundDiv n d

/-- The same number where a digit has been rounded up to ten: the one of the next power. -/
def carried (d : Decimal) : Decimal :=
  if d.coefficient = 10 then ⟨d.negative, 1, d.exponent + 1⟩ else d

end Freehand.Decimal
