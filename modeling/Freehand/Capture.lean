import Freehand.Capture.Line
import Freehand.Capture.Outline
import Freehand.Pen

/-!
# Captures

A capture turns the positions of the pen during one gesture into the geometry of a stroke.  There
is one kind for each stroke mode.
-/

namespace Freehand

/-- The capture of a gesture. -/
inductive Capture (R : Type) where
  /-- The centre of the pen. -/
  | line (c : LineCapture R)
  /-- Both edges of the tip. -/
  | outline (c : OutlineCapture R)
  deriving BEq, Repr

namespace Capture

variable {R : Type}

/-- The capture without samples for a mode. -/
def ofMode : StrokeMode → Capture R
  | .line => .line .empty
  | .calligraphic => .outline .empty

instance : Inhabited (Capture R) := ⟨ofMode .standard⟩

/-- The mode of a capture. -/
def mode : Capture R → StrokeMode
  | line _ => .line
  | outline _ => .calligraphic

/-- The capture with nothing recorded. -/
def reset (c : Capture R) : Capture R :=
  ofMode c.mode

/-- The preview of the part of the stroke not settled yet. -/
def preview : Capture R → Curve R
  | line c => c.current
  | outline c => c.current

/-- The previews of the parts settled so far. -/
def settled : Capture R → List (Curve R)
  | line c => c.settled
  | outline c => c.settled

/-- The number of samples that wait to be fitted. -/
def windowLength : Capture R → Nat
  | line c => c.window.length
  | outline c => c.left.length

variable [Scalar R]

/-- Record where the pen is. -/
def addSample (pen : Pen R) (s : Settings R) : Capture R → Capture R
  | line c => line (c.push pen.viewPoint)
  | outline c => outline (c.push (pen.leftEdge s) (pen.rightEdge s))

/-- Fit the samples collected so far.  Tolerances are squared distances. -/
def fit (tolerance : R) : Capture R → Capture R
  | line c => line (c.fit tolerance)
  | outline c => outline (c.fit tolerance)

/-- The finished stroke, after a last fit.  It is empty if there is nothing to keep.  Whoever asks
for it resets the capture (`reset`). -/
def finish (tolerance : R) : Capture R → Curve R
  | line c => c.finish tolerance
  | outline c => c.finish tolerance

end Capture

end Freehand
