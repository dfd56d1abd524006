import Freehand.Geometry.Affine
import Freehand.Geometry.Bezier

/-!
# Paths

A path is a list of drawing elements.  Each element but the closing one names the point it ends at,
and draws from the end point of the element before it.

`Path.bounds` is the bounding box of a path.  A lone move counts as a point.  An element with no
point before it counts as its own end point only.
-/

namespace Freehand

/-- One step of a path. -/
inductive PathElement (R : Type) where
  /-- Start a subpath at `p`. -/
  | moveTo (p : Point R)
  /-- A straight line to `p`. -/
  | lineTo (p : Point R)
  /-- A quadratic segment to `p`. -/
  | quadTo (c p : Point R)
  /-- A cubic segment to `p`. -/
  | curveTo (c1 c2 p : Point R)
  /-- Close the subpath. -/
  | close
  deriving BEq, Repr, Inhabited

/-- A drawn segment on its own. -/
inductive Segment (R : Type) where
  /-- A straight line. -/
  | line (p0 p1 : Point R)
  /-- A quadratic segment. -/
  | quadratic (s : Quadratic R)
  /-- A cubic segment. -/
  | cubic (s : Cubic R)
  deriving BEq, Repr, Inhabited

/-- A path: its elements in drawing order. -/
abbrev Path (R : Type) := List (PathElement R)

variable {R : Type}

namespace Segment

/-- Where the segment starts. -/
def start : Segment R → Point R
  | line p0 _ => p0
  | quadratic s => s.p0
  | cubic s => s.p0

/-- The path element that draws the segment from its start. -/
def element : Segment R → PathElement R
  | line _ p1 => .lineTo p1
  | quadratic s => .quadTo s.p1 s.p2
  | cubic s => .curveTo s.p1 s.p2 s.p3

end Segment

namespace PathElement

/-- Where the element ends, if it names a point. -/
def endPoint? : PathElement R → Option (Point R)
  | moveTo p | lineTo p | quadTo _ p | curveTo _ _ p => some p
  | close => none

/-- The element closes its subpath. -/
def isClose : PathElement R → Bool
  | close => true
  | _ => false

variable [Scalar R]

/-- The element with every point mapped. -/
def transformed (m : Affine R) : PathElement R → PathElement R
  | moveTo p => moveTo (m.apply p)
  | lineTo p => lineTo (m.apply p)
  | quadTo c p => quadTo (m.apply c) (m.apply p)
  | curveTo c1 c2 p => curveTo (m.apply c1) (m.apply c2) (m.apply p)
  | close => close

/-- The box an element adds when it is drawn from `current`. -/
def bounds? (current : Option (Point R)) : PathElement R → Option (Rect R)
  | moveTo p | lineTo p => some (.ofPoint p)
  | quadTo c p =>
    match current with
    | some start => some (Quadratic.bounds ⟨start, c, p⟩)
    | none => some (.ofPoint p)
  | curveTo c1 c2 p =>
    match current with
    | some start => some (Cubic.bounds ⟨start, c1, c2, p⟩)
    | none => some (.ofPoint p)
  | close => none

end PathElement

namespace Path

variable [Scalar R]

/-- The path with every point mapped. -/
def transformed (m : Affine R) (path : Path R) : Path R :=
  path.map (PathElement.transformed m)

/-- The box of a path drawn from `current`, joined to the box `found` of what precedes it. -/
def boundsFrom (current : Option (Point R)) (found : Option (Rect R)) :
    Path R → Option (Rect R)
  | [] => found
  | el :: rest =>
    boundsFrom (el.endPoint?.or current) (Rect.join found (el.bounds? current)) rest

/-- The bounding box of a path, if it has a point. -/
def bounds (path : Path R) : Option (Rect R) :=
  boundsFrom none none path

end Path

end Freehand
