import Freehand.Geometry.Path

/-!
# Curves

A curve is a path that grows while a stroke is drawn.  A curve that is not empty starts with a
move.  Drawing on an empty curve is refused where no start is known, and supplies the start where
one is.

* `Curve.reversed` draws the same segments from the end to the start and drops closing elements.
* `Curve.append` joins another curve, by a line to its start or as a new subpath.
-/

namespace Freehand

/-- A growing path. -/
structure Curve (R : Type) where
  /-- The elements drawn so far. -/
  elements : Path R := []
  deriving BEq, Repr, Inhabited

/-- Why a curve refused to draw. -/
inductive CurveError where
  /-- The curve is empty, so there is no point to draw from. -/
  | noCurrentPoint
  deriving DecidableEq, Repr

/-- What is wrong, in words. -/
def CurveError.message : CurveError → String
  | noCurrentPoint => "Drawing command issued on a curve with no current point"

namespace Curve

variable {R : Type}

/-! ## What a curve is made of -/

/-- The curve without elements. -/
def empty : Curve R :=
  ⟨[]⟩

/-- The curve has no elements. -/
def isEmpty (c : Curve R) : Bool :=
  c.elements.isEmpty

/-- The number of elements. -/
def length (c : Curve R) : Nat :=
  c.elements.length

/-- The curve ends with a closing element. -/
def isClosed (c : Curve R) : Bool :=
  c.elements.getLast?.any PathElement.isClose

/-- Where the curve starts. -/
def firstPoint? (c : Curve R) : Option (Point R) :=
  c.elements.head?.bind PathElement.endPoint?

/-- The end point of the last element that has one. -/
def currentPoint? (c : Curve R) : Option (Point R) :=
  c.elements.reverse.findSome? PathElement.endPoint?

/-- The segment that the last element draws, if it draws one. -/
def lastSegment? (c : Curve R) : Option (Segment R) :=
  match c.elements.reverse with
  | last :: before :: _ =>
    match before.endPoint?, last with
    | some start, .lineTo p => some (.line start p)
    | some start, .quadTo c p => some (.quadratic ⟨start, c, p⟩)
    | some start, .curveTo c1 c2 p => some (.cubic ⟨start, c1, c2, p⟩)
    | _, _ => none
  | _ => none

/-! ## Drawing -/

/-- The curve with one more element. -/
def push (c : Curve R) (el : PathElement R) : Curve R :=
  ⟨c.elements ++ [el]⟩

/-- A curve that starts at a point. -/
def moveTo (p : Point R) : Curve R :=
  ⟨[.moveTo p]⟩

/-- Draw an element, which needs a point to start from. -/
def draw (c : Curve R) (el : PathElement R) : Except CurveError (Curve R) :=
  if c.isEmpty then .error .noCurrentPoint else .ok (c.push el)

/-- Draw a straight line. -/
def lineTo (c : Curve R) (p : Point R) : Except CurveError (Curve R) :=
  c.draw (.lineTo p)

/-- Draw a cubic segment. -/
def curveTo (c : Curve R) (c1 c2 p : Point R) : Except CurveError (Curve R) :=
  c.draw (.curveTo c1 c2 p)

/-- Draw a segment from where the curve ends, or from the segment's start if the curve is empty. -/
def pushSegment (c : Curve R) (s : Segment R) : Curve R :=
  (if c.isEmpty then moveTo s.start else c).push s.element

/-- Draw straight lines through points, the first of which starts the curve if it is empty. -/
def extendLines (c : Curve R) (points : List (Point R)) : Curve R :=
  if c.isEmpty then
    match points with
    | [] => c
    | p :: rest => ⟨.moveTo p :: rest.map .lineTo⟩
  else
    ⟨c.elements ++ points.map .lineTo⟩

/-- Close the subpath, unless the curve is empty. -/
def close (c : Curve R) : Curve R :=
  if c.isEmpty then c else c.push .close

/-- Draw cubic segments one after the other. -/
def pushCubics (c : Curve R) (segments : List (Cubic R)) : Curve R :=
  segments.foldl (fun c s => c.pushSegment (.cubic s)) c

/-- The curve of cubic segments drawn one after the other. -/
def ofCubics (segments : List (Cubic R)) : Curve R :=
  empty.pushCubics segments

/-- The open polygon through points. -/
def polyline (points : List (Point R)) : Curve R :=
  empty.extendLines points

/-! ## Turning and joining -/

/-- The element that draws `el`, which started at `target`, from its end. -/
def turned (el : PathElement R) (target : Point R) : PathElement R :=
  match el with
  | .curveTo c1 c2 _ => .curveTo c2 c1 target
  | .quadTo c _ => .quadTo c target
  | .moveTo _ => .moveTo target
  | .lineTo _ | .close => .lineTo target

/-- The path that draws `rest` backwards down to `p`, where it starts, and then `after`. -/
def turnOnto (after : Path R) (p : Point R) : Path R → Path R
  | [] => .moveTo p :: after
  | el :: rest => turnOnto (turned el p :: after) (el.endPoint?.getD p) rest

/-- The same curve drawn from its end to its start.  Closing elements are dropped. -/
def reversed (c : Curve R) : Curve R :=
  match c.elements.filter fun el => !el.isClose with
  | [] => empty
  | first :: rest =>
    match first.endPoint? with
    | some p => ⟨turnOnto [] p rest⟩
    | none => empty

/-- The curve followed by another one.  With `connect` a line leads to the start of the other. -/
def append (c other : Curve R) (connect : Bool) : Curve R :=
  match other.elements with
  | [] => c
  | first :: rest =>
    if c.isEmpty then
      other
    else
      match first, connect with
      | .moveTo p, true => ⟨c.elements ++ .lineTo p :: rest⟩
      | _, _ => ⟨c.elements ++ first :: rest⟩

/-! ## Geometry -/

variable [Scalar R]

/-- The bounding box, unless the curve is empty. -/
def bounds (c : Curve R) : Option (Rect R) :=
  c.elements.bounds

/-- The curve with every point mapped. -/
def transformed (c : Curve R) (m : Affine R) : Curve R :=
  ⟨c.elements.transformed m⟩

/-! ## How curves are built -/

/-- The curve comes from operations on curves.  Where `connected` is set, curves are joined by lines
only. -/
inductive Built (connected : Bool) : Curve R → Prop where
  | empty : Built connected .empty
  | ofCubics (segments : List (Cubic R)) : Built connected (ofCubics segments)
  | polyline (points : List (Point R)) : Built connected (polyline points)
  | moveTo (p : Point R) : Built connected (moveTo p)
  | lineTo {c c' : Curve R} {p : Point R} (h : Built connected c) (hdraw : c.lineTo p = .ok c') :
    Built connected c'
  | curveTo {c c' : Curve R} {c1 c2 p : Point R} (h : Built connected c)
    (hdraw : c.curveTo c1 c2 p = .ok c') : Built connected c'
  | pushSegment {c : Curve R} (h : Built connected c) (s : Segment R) :
    Built connected (c.pushSegment s)
  | extendLines {c : Curve R} (h : Built connected c) (points : List (Point R)) :
    Built connected (c.extendLines points)
  | close {c : Curve R} (h : Built connected c) : Built connected c.close
  | append {c other : Curve R} {connect : Bool} (h : Built connected c)
    (hother : Built connected other) (hconnect : connected = true → connect = true) :
    Built connected (c.append other connect)
  | reversed {c : Curve R} (h : Built connected c) : Built connected c.reversed
  | transformed {c : Curve R} (h : Built connected c) (m : Affine R) :
    Built connected (c.transformed m)

end Curve

end Freehand
