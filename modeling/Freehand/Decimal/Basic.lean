import Freehand.Scalar

/-!
# Decimal numbers

Exact decimal numbers, as number texts write them: a sign, a natural coefficient and a power of
ten.  The sign is kept for zero as well.

* `Decimal.ofDigits` reads a run of digits with a point and an exponent.
* `Decimal.scan?` reads the digits of a number text in its loosest form, where either side of the
  point may be empty.
* `DecimalScalar` holds the two conversions between decimals and scalars.
-/

namespace Freehand

/-- The number `± coefficient · 10 ^ exponent`. -/
structure Decimal where
  /-- The number carries a minus sign. -/
  negative : Bool
  /-- The digits without the point. -/
  coefficient : Nat
  /-- The power of ten that the coefficient counts. -/
  exponent : Int
  deriving DecidableEq, Repr, Inhabited

/-- Scalars that are read from decimals and written as decimals. -/
class DecimalScalar (R : Type) extends Scalar R where
  /-- The scalar nearest to a decimal.  It is infinite where the decimal is out of range. -/
  ofDecimal : Decimal → R
  /-- The shortest decimal that reads back as the given scalar, if the scalar is finite. -/
  toDecimal? : R → Option Decimal
  /-- The infinite scalar. -/
  infinity : R
  /-- The scalar that is no number. -/
  notANumber : R

namespace Decimal

/-! ## Digits -/

/-- The value of an ASCII digit. -/
def digit? (c : Char) : Option Nat :=
  if '0' ≤ c ∧ c ≤ '9' then some (c.toNat - '0'.toNat) else none

/-- The character is an ASCII digit. -/
def isDigit (c : Char) : Bool :=
  (digit? c).isSome

/-- The number that a run of digits denotes.  Other characters are passed over. -/
def value (digits : List Char) : Nat :=
  (digits.filterMap digit?).foldl (fun n d => 10 * n + d) 0

/-- The digits of a natural number. -/
def digits (n : Nat) : List Char :=
  Nat.toDigits 10 n

/-- The number of digits of a natural number. -/
def digitCount (n : Nat) : Nat :=
  (digits n).length

/-! ## Reading -/

/-- The decimal with given digits before and after the point and a given exponent. -/
def ofDigits (negative : Bool) (whole fraction : List Char) (exponent : Int) : Decimal :=
  ⟨negative, value (whole ++ fraction), exponent - fraction.length⟩

/-- The longest run of digits at the front of a text, and the rest. -/
def takeDigits (cs : List Char) : List Char × List Char :=
  (cs.takeWhile isDigit, cs.dropWhile isDigit)

/-- The fraction of a number text, if it has a point, and the rest. -/
def takeFraction : List Char → List Char × List Char
  | '.' :: rest => takeDigits rest
  | cs => ([], cs)

/-- The value of a run of digits with an optional sign, which must be the whole text. -/
def signed? : List Char → Option Int
  | '-' :: ds => unsigned? ds |>.map fun n => -(n : Int)
  | '+' :: ds => unsigned? ds |>.map Int.ofNat
  | ds => unsigned? ds |>.map Int.ofNat
where
  /-- The value of a nonempty run of digits. -/
  unsigned? (ds : List Char) : Option Nat :=
    if ds ≠ [] ∧ ds.all isDigit then some (value ds) else none

/-- The exponent of a number text, which must end the text. -/
def exponent? : List Char → Option Int
  | [] => some 0
  | c :: rest => if c = 'e' ∨ c = 'E' then signed? rest else none

/-- A number text without its sign.  Either side of the point may be empty, but not both. -/
def scan? (negative : Bool) (cs : List Char) : Option Decimal :=
  let (whole, afterWhole) := takeDigits cs
  let (fraction, afterFraction) := takeFraction afterWhole
  if whole = [] ∧ fraction = [] then
    none
  else
    (exponent? afterFraction).map (ofDigits negative whole fraction)

end Decimal

end Freehand
