/-!
# Scalars

The numbers that strokes and scenes are computed with.  Every definition of the library that
computes takes its number type as an argument `R` with an instance of `Scalar R`, so that the same
definitions run on binary floating point and can be read over an ordered field.

* The class holds operations only.  What a law needs of them is a hypothesis of that law.
* `==` is the equality the program itself uses.  On floating point a NaN differs from itself.
* The larger and the smaller of two numbers ignore an operand that is no number; clamping keeps it.
-/

namespace Freehand

/-- The operations of a number type. -/
class Scalar (R : Type) extends Zero R, One R, Add R, Sub R, Mul R, Div R, Neg R, OfScientific R,
    BEq R, LT R, LE R where
  /-- The strict order can be tested. -/
  decidableLT : DecidableLT R
  /-- The order can be tested. -/
  decidableLE : DecidableLE R
  /-- Half a turn in radians. -/
  pi : R
  /-- The square root. -/
  sqrt : R → R
  /-- The sine of an angle in radians. -/
  sin : R → R
  /-- The cosine of an angle in radians. -/
  cos : R → R
  /-- The angle of the vector with the given ordinate and abscissa, in that order. -/
  atan2 : R → R → R
  /-- Neither infinite nor no number at all. -/
  isFinite : R → Bool

namespace Scalar

variable {R : Type} [Scalar R]

instance : DecidableLT R := decidableLT

instance : DecidableLE R := decidableLE

/-! ## Derived operations -/

/-- A natural number as a scalar. -/
def ofNat (n : Nat) : R :=
  OfScientific.ofScientific n false 0

/-- The magnitude of a number. -/
def abs (a : R) : R :=
  if a < 0 then -a else a

/-- The larger of two numbers.  An operand that is no number loses against any other. -/
def max (a b : R) : R :=
  if a < b then b else if a == a then a else b

/-- The smaller of two numbers.  An operand that is no number loses against any other. -/
def min (a b : R) : R :=
  if b < a then b else if a == a then a else b

/-- The point of the interval from `lo` to `hi` nearest to `a`.  What is no number stays so. -/
def clamp (lo hi a : R) : R :=
  if a < lo then lo else if hi < a then hi else a

/-- The number a share `t` of the way from `a` to `b`. -/
def lerp (a b t : R) : R :=
  a + t * (b - a)

/-! ## Quadratic equations -/

/-- The roots of `c + b t`.  The equation `0 = 0` counts as having the root `0`. -/
def linearRoots (c b : R) : List R :=
  let root := -c / b
  if isFinite root then [root] else if c == 0 && b == 0 then [0] else []

/-- The real roots of `c + b t + a t²`.

The equation is divided by `a` first, and counts as linear where that overflows.  Of the two roots
the one of larger magnitude is computed without cancellation, and the other from the product of
the roots. -/
def quadraticRoots (c b a : R) : List R :=
  let c' := c * (1 / a)
  let b' := b * (1 / a)
  if !isFinite c' || !isFinite b' then
    linearRoots c b
  else
    let discriminant := b' * b' - 4.0 * c'
    let withPartner (root : R) : List R :=
      let partner := c' / root
      if isFinite partner then [root, partner] else [root]
    if !isFinite discriminant then
      withPartner (-b')
    else if discriminant < 0 then
      []
    else if discriminant == 0 then
      [-0.5 * b']
    else
      let reach := sqrt discriminant
      withPartner (-0.5 * (b' + if b' < 0 then -reach else reach))

end Scalar

end Freehand
