import Freehand.Decimal.Basic

/-!
# JSON values

The values that JSON texts denote.  Members of an object keep their order and may repeat a name.
A number keeps the way it is written, since some readers accept plain integers only.

A string is missing its text where an escape in it stands for half of a surrogate pair: such a
string is well formed, but there are no characters for it.
-/

namespace Freehand

/-- A number as it is written. -/
structure Numeral where
  /-- The number starts with a minus sign. -/
  negative : Bool
  /-- The digits before the point. -/
  whole : List Char
  /-- The digits after the point; none where there is no point. -/
  fraction : List Char
  /-- The sign and the digits of the exponent; none where there is no exponent. -/
  exponent : List Char
  deriving DecidableEq, Repr, Inhabited

/-- A JSON value. -/
inductive Json where
  /-- The value `null`. -/
  | null
  /-- A truth value. -/
  | bool (b : Bool)
  /-- A number. -/
  | number (n : Numeral)
  /-- A string, with its text if it has one. -/
  | string (text : Option String)
  /-- An array. -/
  | array (items : List Json)
  /-- An object. -/
  | object (members : List (Option String × Json))
  deriving Inhabited

namespace Numeral

/-! ## Reading a number -/

/-- The number is written without a point and without an exponent. -/
def isInteger (n : Numeral) : Bool :=
  n.fraction.isEmpty && n.exponent.isEmpty

/-- The decimal that the number denotes. -/
def decimal (n : Numeral) : Decimal :=
  .ofDigits n.negative n.whole n.fraction ((Decimal.signed? n.exponent).getD 0)

/-- The natural number denoted by plain digits without a sign. -/
def natural? (n : Numeral) : Option Nat :=
  if n.isInteger && !n.negative then some (Decimal.value n.whole) else none

/-! ## Writing a number -/

/-- A run of zeros. -/
def zeros (n : Int) : List Char :=
  List.replicate n.toNat '0'

/-- The exponents of the leading digit at which a decimal is written without an exponent. -/
def isPositional (lead : Int) : Bool :=
  -5 ≤ lead && lead ≤ 15

/-- A decimal as a number with at least one digit on either side of its point, or with one digit
before the point and a signed exponent where the leading digit stands far from the point.  A zero
is written in one way, whatever its power of ten. -/
def ofDecimal (d : Decimal) : Numeral :=
  let ds := Decimal.digits d.coefficient
  let lead : Int := ds.length + d.exponent - 1
  if d.coefficient = 0 then
    ⟨d.negative, ['0'], ['0'], []⟩
  else if isPositional lead then
    if 0 ≤ d.exponent then
      ⟨d.negative, ds ++ zeros d.exponent, ['0'], []⟩
    else if 0 ≤ lead then
      ⟨d.negative, ds.take (lead.toNat + 1), ds.drop (lead.toNat + 1), []⟩
    else
      ⟨d.negative, ['0'], zeros (-lead - 1) ++ ds, []⟩
  else
    ⟨d.negative, ds.take 1, ds.drop 1,
     (if 0 ≤ lead then '+' else '-') :: Decimal.digits lead.natAbs⟩

/-- A natural number as plain digits. -/
def ofNat (n : Nat) : Numeral :=
  ⟨false, Decimal.digits n, [], []⟩

/-- The characters of a number. -/
def text (n : Numeral) : List Char :=
  (if n.negative then ['-'] else []) ++ n.whole ++
    (if n.fraction.isEmpty then [] else '.' :: n.fraction) ++
    (if n.exponent.isEmpty then [] else 'e' :: n.exponent)

end Numeral

namespace Json

/-- A string with a text. -/
def text (s : String) : Json :=
  .string (some s)

/-- A natural number. -/
def nat (n : Nat) : Json :=
  .number (.ofNat n)

/-- A scalar, or `null` if it is not finite. -/
def scalar {R : Type} [DecimalScalar R] (a : R) : Json :=
  match DecimalScalar.toDecimal? a with
  | some d => .number (.ofDecimal d)
  | none => .null

/-- An object whose member names have texts. -/
def record (members : List (String × Json)) : Json :=
  .object (members.map fun m => (some m.1, m.2))

end Json

end Freehand
