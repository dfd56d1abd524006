import Freehand.Decimal.Basic
import Freehand.Fit.Pieces
import Freehand.Geometry.Nearest

/-!
# The deviation of a fit

How far the samples of a run lie from the segments fitted to it.  A segment whose distance is no
number counts as infinitely far away.
-/

namespace Freehand.Fit

variable {R : Type} [DecimalScalar R]

/-- The distance of a point from the nearest of several segments. -/
def distanceToAny (p : Point R) (segments : List (Cubic R)) : R :=
  segments.foldl (fun d s => Scalar.min d (s.distanceTo p)) DecimalScalar.infinity

/-- The largest distance of a sample from the segment nearest to it.  Without segments it is zero;
samples that the fit leaves out do not count. -/
def deviation (points : List (Point R)) (segments : List (Cubic R)) : R :=
  if segments.isEmpty then
    0
  else
    (clean points).foldl (fun d p => Scalar.max d (distanceToAny p segments)) 0

end Freehand.Fit
