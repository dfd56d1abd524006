import Freehand.Geometry.Rect
import Freehand.Settings.Basic

/-!
# The pen

The pen is a mass on a spring that is pulled towards the pointer and slowed by friction.  Its tip
is a flat edge with a direction.

* Positions are kept in a unit square derived from the viewport, so the pen handles alike at every
  zoom.  The larger extent of the viewport is the unit; an extent that is not positive and finite
  counts as one.
* A pull that leaves the pen where it is, because the pointer is under it or because it came to
  rest, is refused, and the caller drops the sample.
* The tip lies between its fixed angle and the direction across the motion.  Both describe an edge
  without a sense, so the second is first brought into the half circle around the first.
-/

namespace Freehand

variable {R : Type} [Scalar R]

/-! ## The direction of the tip -/

namespace Tip

/-- The angle of the tip at its fixed orientation, for a setting in degrees. -/
def fixedAngle (degrees : R) : R :=
  let radians := (degrees - 90.0) / 180.0 * Scalar.pi
  Point.angle ⟨-Scalar.sin radians, Scalar.cos radians⟩

/-- Half a turn is added to `across` where it stands more than a quarter turn from `fixed`. -/
def isOpposed (fixed across : R) : Bool :=
  Scalar.pi / 2.0 < Scalar.abs (across - fixed)

/-- An angle brought back by a whole turn where it left the range of one. -/
def wrapped (a : R) : R :=
  let a := if Scalar.pi < a then a - 2.0 * Scalar.pi else a
  if a < -Scalar.pi then a + 2.0 * Scalar.pi else a

/-- The angle `across` brought into the half circle around `fixed`. -/
def reconciled (fixed across : R) : R :=
  wrapped (if isOpposed fixed across then across + Scalar.pi else across)

/-- The angle between `fixed` and the reconciled `across`, nearer to `fixed` the flatter the tip. -/
def blended (fixed across flatness : R) : R :=
  fixed + (1 - flatness) * (reconciled fixed across - fixed)

/-- The angle of the tip, with the half turn of the reconciliation taken back. -/
def angle (fixed across flatness : R) : R :=
  blended fixed across flatness - if isOpposed fixed across then Scalar.pi else 0

/-- The direction across a motion. -/
def across (velocity : Point R) : R :=
  Point.angle ⟨-velocity.y, velocity.x⟩

/-- The direction of the tip of a pen that moves with a velocity. -/
def direction (fixed : R) (velocity : Point R) (flatness : R) : Point R :=
  .ofAngle (angle fixed (across velocity) flatness)

end Tip

/-! ## Motion -/

/-- The state of the pen during a gesture, in units of the viewport. -/
structure Pen (R : Type) where
  /-- Where the pen is. -/
  position : Point R
  /-- Where the pen was before its last step. -/
  previous : Point R
  /-- The step the pen makes next. -/
  velocity : Point R
  /-- The last change of the velocity. -/
  acceleration : Point R
  /-- The direction of the tip. -/
  tip : Point R
  /-- The visible area that positions are measured in. -/
  viewport : Rect R
  deriving BEq, Repr

namespace Pen

/-- Forces and velocities below this magnitude count as none. -/
def threshold : R :=
  1.0e-6

/-- The mass for a setting from 0 to 1. -/
def physicalMass (mass : R) : R :=
  Scalar.lerp 1 160.0 mass

/-- The share of the velocity lost in a step, for a setting from 0 to 1. -/
def physicalDrag (drag : R) : R :=
  Scalar.lerp 0 0.5 (drag * drag)

/-- The unit of length for a viewport. -/
def scale (viewport : Rect R) : R :=
  let extent := Scalar.max viewport.width viewport.height
  if 0 < extent ∧ Scalar.isFinite extent then extent else 1

/-- A point of the desktop in units of a viewport. -/
def normalize (viewport : Rect R) (p : Point R) : Point R :=
  (p - viewport.origin).dividedBy (scale viewport)

/-- The point of the desktop at a position in units of a viewport. -/
def denormalize (viewport : Rect R) (p : Point R) : Point R :=
  viewport.origin + scale viewport • p

/-- A pen that has not been used. -/
def unused : Pen R :=
  ⟨0, 0, 0, 0, 0, ⟨0, 0, 1, 1⟩⟩

instance : Inhabited (Pen R) := ⟨unused⟩

/-- The pen at rest under the pointer. -/
def atRest (pointer : Point R) (viewport : Rect R) : Pen R :=
  let position := normalize viewport pointer
  ⟨position, position, 0, 0, 0, viewport⟩

/-- Pull the pen towards the pointer for one step of time.  Says whether the pen moved. -/
def pull (pen : Pen R) (pointer : Point R) (viewport : Rect R) (s : Settings R) : Bool × Pen R :=
  let pen := { pen with viewport }
  let force := normalize viewport pointer - pen.position
  if force.norm < threshold then
    (false, pen)
  else
    let acceleration := force.dividedBy (physicalMass s.mass)
    let velocity := pen.velocity + acceleration
    let pen := { pen with acceleration, velocity }
    if velocity.norm < threshold then
      (false, pen)
    else
      let slowed := (1 - physicalDrag s.drag) • velocity
      (true, { pen with
        tip := Tip.direction (Tip.fixedAngle s.angle) velocity s.flatness
        velocity := slowed
        previous := pen.position
        position := pen.position + slowed })

/-- Where the pen is on the desktop. -/
def viewPoint (pen : Pen R) : Point R :=
  denormalize pen.viewport pen.position

/-! ## The edges of the tip -/

/-- No thinning makes the stroke narrower than this share of the tip. -/
def leastWidth : R :=
  0.02

/-- The offset of an edge from the centre of the pen, for a tip of width one. -/
def edgeShare : R :=
  0.05

/-- The width of the stroke at a speed. -/
def strokeWidth (speed : R) (s : Settings R) : R :=
  let thinning := Scalar.lerp 0 160.0 s.thinning
  Scalar.max ((1 - thinning * speed) * s.width) (leastWidth * s.width)

/-- The way from the centre of the pen to the left edge of its tip. -/
def edgeOffset (pen : Pen R) (s : Settings R) : Point R :=
  (edgeShare * strokeWidth pen.velocity.norm s) • pen.tip

/-- The left edge of the tip on the desktop. -/
def leftEdge (pen : Pen R) (s : Settings R) : Point R :=
  denormalize pen.viewport (pen.position + pen.edgeOffset s)

/-- The right edge of the tip on the desktop. -/
def rightEdge (pen : Pen R) (s : Settings R) : Point R :=
  denormalize pen.viewport (pen.position - pen.edgeOffset s)

/-! ## Calls -/

/-- What a tool asks of its pen. -/
inductive Call (R : Type) where
  /-- Put the pen at rest under the pointer. -/
  | reset (pointer : Point R) (viewport : Rect R)
  /-- Pull the pen towards the pointer. -/
  | pull (pointer : Point R) (viewport : Rect R) (s : Settings R)

/-- The viewport of a call. -/
def Call.viewport : Call R → Rect R
  | reset _ viewport => viewport
  | pull _ viewport _ => viewport

/-- What the pen replies to a call, and the pen afterwards.  There is no reply to a reset. -/
def perform (pen : Pen R) : Call R → Option Bool × Pen R
  | .reset pointer viewport => (none, atRest pointer viewport)
  | .pull pointer viewport s => ((pen.pull pointer viewport s).1, (pen.pull pointer viewport s).2)

/-- The replies to some calls, and the pen after each of them. -/
def course (pen : Pen R) : List (Call R) → List (Option Bool × Pen R)
  | [] => []
  | call :: calls => pen.perform call :: course (pen.perform call).2 calls

end Pen

end Freehand
