import Freehand.Fit.Parameters

/-!
# Least squares

The cubic segment with given ends and given directions at its ends that comes closest to the
samples at their parameters.  Free are the distances of the two control points from their ends.
They solve two linear equations, whose coefficients are sums over the samples.

Where the equations do not determine the distances, or a distance is not positive, both control
points are set a third of the chord away from their ends.
-/

namespace Freehand.Fit

variable {R : Type} [Scalar R]

/-- The coefficients of the two equations `c00 α + c01 β = x0` and `c01 α + c11 β = x1`. -/
structure Normal (R : Type) where
  /-- The first coefficient of the first equation. -/
  c00 : R
  /-- The other coefficient of both equations. -/
  c01 : R
  /-- The second coefficient of the second equation. -/
  c11 : R
  /-- The right side of the first equation. -/
  x0 : R
  /-- The right side of the second equation. -/
  x1 : R

/-- The ends of a segment and the directions that leave them. -/
structure Frame (R : Type) where
  /-- The start. -/
  first : Point R
  /-- The end. -/
  last : Point R
  /-- The direction that leaves the start. -/
  tangentStart : Point R
  /-- The direction that leaves the end backwards. -/
  tangentEnd : Point R

namespace Frame

/-- What the sample `p` at parameter `t` adds to the coefficients. -/
def addSample (f : Frame R) (n : Normal R) (p : Point R) (t : R) : Normal R :=
  let s := 1 - t
  let b0 := s * s * s
  let b1 := 3.0 * s * s * t
  let b2 := 3.0 * s * t * t
  let b3 := t * t * t
  let a1 := b1 • f.tangentStart
  let a2 := b2 • f.tangentEnd
  let shortfall := p - ((b0 + b1) • f.first + (b2 + b3) • f.last)
  { c00 := n.c00 + a1.dot a1
    c01 := n.c01 + a1.dot a2
    c11 := n.c11 + a2.dot a2
    x0 := n.x0 + a1.dot shortfall
    x1 := n.x1 + a2.dot shortfall }

/-- The coefficients for a run of samples and their parameters. -/
def normal (f : Frame R) (data : List (Point R)) (u : List R) : Normal R :=
  (data.zip u).foldl (fun n (p, t) => f.addSample n p t) ⟨0, 0, 0, 0, 0⟩

/-- The distances of the control points that solve the equations, or zeros if they are singular. -/
def solve (n : Normal R) : R × R :=
  let det := n.c00 * n.c11 - n.c01 * n.c01
  let detEnd := n.c00 * n.x1 - n.c01 * n.x0
  let detStart := n.x0 * n.c11 - n.x1 * n.c01
  if machineEpsilon * n.c00 * n.c11 < Scalar.abs det then (detStart / det, detEnd / det) else (0, 0)

/-- The distances of the control points, or a third of the chord where those are of no use. -/
def distances (f : Frame R) (n : Normal R) : R × R :=
  let chord := f.first.distance f.last
  let (start, stop) := solve n
  let least := 1.0e-6 * chord
  if !(Scalar.isFinite start && Scalar.isFinite stop) ∨ start < least ∨ stop < least then
    (chord / 3.0, chord / 3.0)
  else
    (start, stop)

/-- The segment with control points at given distances from the ends. -/
def segment (f : Frame R) (start stop : R) : Cubic R :=
  ⟨f.first, f.first + start • f.tangentStart, f.last + stop • f.tangentEnd, f.last⟩

/-- The segment closest to a run of samples at their parameters. -/
def fit (f : Frame R) (data : List (Point R)) (u : List R) : Cubic R :=
  let (start, stop) := f.distances (f.normal data u)
  f.segment start stop

end Frame

end Freehand.Fit
