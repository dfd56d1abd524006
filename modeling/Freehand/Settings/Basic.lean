import Freehand.Scalar

/-!
# Tool settings

What a user can adjust about freehand drawing.  The six quantities are kept in the range that the
user sees; the pen maps them to physical ranges when it applies them.

A quantity is named by `Quantity`, so that reading, writing, defaults and ranges each have one
definition for all six.
-/

namespace Freehand

/-- What the pen leaves behind. -/
inductive StrokeMode where
  /-- An open path through the centre of the pen. -/
  | line
  /-- A filled outline between the two edges of a wide tip. -/
  | calligraphic
  deriving DecidableEq, Repr, Inhabited

/-- The adjustable quantities. -/
inductive Quantity where
  /-- The mass of the pen, from 0 to 1. -/
  | mass
  /-- The friction of the pen, from 0 to 1. -/
  | drag
  /-- The fixed angle of the tip in degrees, from -90 to 90. -/
  | angle
  /-- The width of the tip, from 0 to 1. -/
  | width
  /-- How much speed thins the stroke, from -1 to 1. -/
  | thinning
  /-- How far the tip keeps its fixed angle: 0 lets it follow the motion, 1 holds it. -/
  | flatness
  deriving DecidableEq, Repr, Inhabited

/-- The settings of the tool. -/
structure Settings (R : Type) where
  /-- The mass of the pen. -/
  mass : R
  /-- The friction of the pen. -/
  drag : R
  /-- The fixed angle of the tip in degrees. -/
  angle : R
  /-- The width of the tip. -/
  width : R
  /-- How much speed thins the stroke. -/
  thinning : R
  /-- How far the tip keeps its fixed angle. -/
  flatness : R
  /-- What the pen leaves behind. -/
  mode : StrokeMode
  /-- Sample the pointer from a timer and not from its moves. -/
  useTimer : Bool
  /-- The sampling period in milliseconds. -/
  sampleInterval : UInt64
  /-- Drop moves that arrive before a sampling period has passed. -/
  decimateMoves : Bool
  deriving BEq, Repr

namespace StrokeMode

/-- The name of a mode. -/
def name : StrokeMode → String
  | line => "line"
  | calligraphic => "calligraphic"

/-- The mode used where none is chosen. -/
def standard : StrokeMode :=
  calligraphic

/-- How far a fit may stray from the samples, in pixels. -/
def tolerance {R : Type} [Scalar R] : StrokeMode → R
  | line => 1
  | calligraphic => 3.0

end StrokeMode

variable {R : Type} [Scalar R]

namespace Quantity

/-- All quantities, in the order in which settings list them. -/
def all : List Quantity :=
  [mass, drag, angle, width, thinning, flatness]

/-- The name of a quantity. -/
def name : Quantity → String
  | mass => "mass"
  | drag => "drag"
  | angle => "angle"
  | width => "width"
  | thinning => "thinning"
  | flatness => "flatness"

/-- The value used where none is chosen. -/
def standard : Quantity → R
  | mass => 0.3
  | drag => 1
  | angle => 30.0
  | width => 0.2
  | thinning => 0.1
  | flatness => 0.9

/-- The least value a user can choose. -/
def least : Quantity → R
  | angle => -90.0
  | thinning => -1
  | _ => 0

/-- The greatest value a user can choose. -/
def greatest : Quantity → R
  | angle => 90.0
  | _ => 1

/-- The nearest value that a user can choose. -/
def clamp (q : Quantity) (v : R) : R :=
  Scalar.clamp q.least q.greatest v

end Quantity

namespace Settings

/-- The settings with every quantity at its default. -/
def withMode (mode : StrokeMode) : Settings R where
  mass := Quantity.mass.standard
  drag := Quantity.drag.standard
  angle := Quantity.angle.standard
  width := Quantity.width.standard
  thinning := Quantity.thinning.standard
  flatness := Quantity.flatness.standard
  mode := mode
  useTimer := false
  sampleInterval := 10
  decimateMoves := false

/-- The settings used where none are chosen. -/
def standard : Settings R :=
  withMode .standard

instance : Inhabited (Settings R) := ⟨standard⟩

omit [Scalar R] in
/-- The value of a quantity. -/
def get (s : Settings R) : Quantity → R
  | .mass => s.mass
  | .drag => s.drag
  | .angle => s.angle
  | .width => s.width
  | .thinning => s.thinning
  | .flatness => s.flatness

omit [Scalar R] in
/-- The settings with another value for a quantity. -/
def put (s : Settings R) (q : Quantity) (v : R) : Settings R :=
  match q with
  | .mass => { s with mass := v }
  | .drag => { s with drag := v }
  | .angle => { s with angle := v }
  | .width => { s with width := v }
  | .thinning => { s with thinning := v }
  | .flatness => { s with flatness := v }

/-- A quantity moved by a difference, within its range. -/
def nudge (s : Settings R) (q : Quantity) (delta : R) : Settings R :=
  s.put q (q.clamp (s.get q + delta))

end Settings

end Freehand
