import Freehand.Geometry.Bezier

/-!
# The nearest point of a cubic segment

The squared distance of a point from a cubic segment is a polynomial of degree six in the
parameter, so it is least at an end or where its derivative, of degree five, changes its sign.

The sign changes of a polynomial between 0 and 1 are found by halving the intervals between those
of its derivative, on which the polynomial is monotone.  The degree bounds the recursion.
-/

namespace Freehand

variable {R : Type} [Scalar R]

namespace Polynomial

/-- The value at `t` of the polynomial with given coefficients, lowest power first. -/
def eval (coefficients : List R) (t : R) : R :=
  coefficients.foldr (fun c v => c + t * v) 0

/-- The coefficients from the power `n` on, each multiplied by its power. -/
def weighted (n : Nat) : List R → List R
  | [] => []
  | c :: cs => Scalar.ofNat n * c :: weighted (n + 1) cs

/-- The coefficients of the derivative. -/
def derivative (coefficients : List R) : List R :=
  weighted 1 coefficients.tail

/-- The number of halvings after which an interval is narrow enough. -/
def halvings : Nat :=
  64

/-- A place in the interval from `a` to `b` where `f` changes its sign from that at `a`. -/
def bisect (f : R → R) (negative : Bool) : Nat → R → R → R
  | 0, a, b => 0.5 * (a + b)
  | n + 1, a, b =>
    let m := 0.5 * (a + b)
    if (decide (f m < 0)) == negative then bisect f negative n m b else bisect f negative n a m

/-- The places where `f` changes its sign in the intervals between consecutive cuts. -/
def signChanges (f : R → R) : List R → List R
  | a :: b :: cuts =>
    let negative := decide (f a < 0)
    if decide (f b < 0) == negative then
      signChanges f (b :: cuts)
    else
      bisect f negative halvings a b :: signChanges f (b :: cuts)
  | _ => []

/-- The places strictly between 0 and 1 where a polynomial of the given degree changes its sign. -/
def roots : (degree : Nat) → List R → List R
  | 0, _ => []
  | n + 1, coefficients =>
    signChanges (eval coefficients) (0 :: (roots n (derivative coefficients) ++ [1]))

end Polynomial

namespace Cubic

/-- The coefficients of half the derivative of the squared distance from `p`. -/
def distanceSlope (s : Cubic R) (p : Point R) : List R :=
  let a0 := s.p0 - p
  let a1 := (3.0 : R) • (s.p1 - s.p0)
  let a2 := (3.0 : R) • ((s.p2 - s.p1) - (s.p1 - s.p0))
  let a3 := (s.p3 - s.p0) - (3.0 : R) • (s.p2 - s.p1)
  [a0.dot a1,
   a1.dot a1 + 2.0 * a0.dot a2,
   3.0 * a1.dot a2 + 3.0 * a0.dot a3,
   2.0 * a2.dot a2 + 4.0 * a1.dot a3,
   5.0 * a2.dot a3,
   3.0 * a3.dot a3]

/-- The distance of a point from the segment.

A place whose distance is no number is never nearer than another one. -/
def distanceTo (s : Cubic R) (p : Point R) : R :=
  let nearer (d e : R) : R := if e < d then e else d
  let ends := nearer (s.p0 - p).normSq (s.p3 - p).normSq
  Scalar.sqrt <|
    (Polynomial.roots 5 (s.distanceSlope p)).foldl (fun d t => nearer d (s.eval t - p).normSq) ends

end Cubic

end Freehand
