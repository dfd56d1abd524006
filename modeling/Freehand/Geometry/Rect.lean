import Freehand.Geometry.Point

/-!
# Rectangles

Rectangles with sides along the axes, used as viewports, bounding boxes and damaged regions.
A bounding box that may be missing is an `Option (Rect R)`; `Rect.join` is the union of two such.
-/

namespace Freehand

/-- A rectangle between two abscissas and two ordinates. -/
structure Rect (R : Type) where
  /-- The left side. -/
  x0 : R
  /-- The top side. -/
  y0 : R
  /-- The right side. -/
  x1 : R
  /-- The bottom side. -/
  y1 : R
  deriving BEq, Repr, Inhabited

namespace Rect

variable {R : Type} [Scalar R]

/-- The rectangle with two given opposite corners. -/
def ofCorners (p q : Point R) : Rect R :=
  ⟨Scalar.min p.x q.x, Scalar.min p.y q.y, Scalar.max p.x q.x, Scalar.max p.y q.y⟩

/-- The rectangle that holds one point only. -/
def ofPoint (p : Point R) : Rect R :=
  ofCorners p p

/-- The smallest rectangle around two others. -/
def union (a b : Rect R) : Rect R :=
  ⟨Scalar.min a.x0 b.x0, Scalar.min a.y0 b.y0, Scalar.max a.x1 b.x1, Scalar.max a.y1 b.y1⟩

/-- The smallest rectangle around another one and a point. -/
def insert (a : Rect R) (p : Point R) : Rect R :=
  ⟨Scalar.min a.x0 p.x, Scalar.min a.y0 p.y, Scalar.max a.x1 p.x, Scalar.max a.y1 p.y⟩

/-- The union of two rectangles of which either may be missing. -/
def join : Option (Rect R) → Option (Rect R) → Option (Rect R)
  | some a, some b => some (a.union b)
  | a, none => a
  | none, b => b

/-- The corner that coordinates are measured from. -/
def origin (a : Rect R) : Point R :=
  ⟨a.x0, a.y0⟩

/-- The extent along the first axis. -/
def width (a : Rect R) : R :=
  a.x1 - a.x0

/-- The extent along the second axis. -/
def height (a : Rect R) : R :=
  a.y1 - a.y0

end Rect

end Freehand
