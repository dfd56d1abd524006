import Freehand.Capture.Window
import Freehand.Curve
import Freehand.Fit.Pieces

/-!
# Outline capture

An outline capture follows both edges of a wide tip and leaves a closed outline.

The samples of each edge are kept in a window of their own.  When the windows are one short of full
both edges are fitted by several cubic segments, or kept as straight lines if either cannot be, and
new windows start at the last samples.  Until then the preview is the polygon through the samples.
-/

namespace Freehand

/-- The state of an outline capture. -/
structure OutlineCapture (R : Type) where
  /-- The samples of the left edge not settled yet. -/
  left : Window R
  /-- The samples of the right edge not settled yet. -/
  right : Window R
  /-- The settled part of the left edge. -/
  leftEdge : Curve R
  /-- The settled part of the right edge. -/
  rightEdge : Curve R
  /-- The preview of what was captured last. -/
  current : Curve R
  /-- The previews of the settled windows. -/
  settled : List (Curve R)
  deriving BEq, Repr

namespace OutlineCapture

variable {R : Type}

/-- The greatest number of segments for an edge of one window. -/
def maxSegments : Nat :=
  8

/-- A capture without samples. -/
def empty : OutlineCapture R :=
  ⟨.empty, .empty, .empty, .empty, .empty, []⟩

/-- Record a sample of both edges. -/
def push (c : OutlineCapture R) (l r : Point R) : OutlineCapture R :=
  if c.left.isFull then c else { c with left := c.left.push l, right := c.right.push r }

/-- The closed polygon through the samples of the left edge and back along the right one. -/
def samplePolygon (c : OutlineCapture R) : Curve R :=
  (Curve.polyline (c.left.points ++ c.right.points.reverse)).close

/-- Where the edges start, if they have not been started. -/
def started (c : OutlineCapture R) : OutlineCapture R :=
  if c.leftEdge.isEmpty || c.rightEdge.isEmpty then
    { c with
      leftEdge := .extendLines .empty (c.left.points.take 1)
      rightEdge := .extendLines .empty (c.right.points.take 1) }
  else
    c

/-- The closed outline of fitted edges that start at the points `l` and `r`: the left edge forward,
a line across and the right edge back. -/
def windowOutline (l r : Point R) (b1 b2 : List (Cubic R)) : Curve R :=
  let start := (b1.head?.map Cubic.p0).getD l
  let across := (b2.getLast?.map Cubic.p3).getD r
  ((((Curve.moveTo start).pushCubics b1).extendLines [across]).pushCubics
    (b2.reverse.map Cubic.reversed)).close

/-- Windows that start at the last samples. -/
def restarted (c : OutlineCapture R) : OutlineCapture R :=
  let newest := c.left.length - 1
  { c with left := c.left.restart newest, right := c.right.restart newest }

/-- Keep the samples of both edges as straight lines. -/
def keepSamples (c : OutlineCapture R) : OutlineCapture R :=
  { c with
    current := c.samplePolygon
    leftEdge := c.leftEdge.extendLines (c.left.points.drop 1)
    rightEdge := c.rightEdge.extendLines (c.right.points.drop 1) }

variable [Scalar R]

/-- Keep fitted edges.  The preview follows them unless the stroke ends. -/
def keepFitted (c : OutlineCapture R) (ending : Bool) (b1 b2 : List (Cubic R)) :
    OutlineCapture R :=
  { c with
    current :=
      if ending then c.current
      else windowOutline (c.left.points.head?.getD 0) (c.right.points.head?.getD 0) b1 b2
    leftEdge := c.leftEdge.pushCubics b1
    rightEdge := c.rightEdge.pushCubics b2 }

/-- Fit the edges of the windows and start new windows.  The preview is settled unless the stroke
ends. -/
def settle (c : OutlineCapture R) (tolerance : R) (ending : Bool) : OutlineCapture R :=
  let c := c.started
  let c :=
    match Fit.curves c.left.points tolerance maxSegments,
        Fit.curves c.right.points tolerance maxSegments with
    | .ok b1, .ok b2 => c.keepFitted ending b1 b2
    | _, _ => c.keepSamples
  let c := if ending then c else { c with settled := c.settled ++ [c.current] }
  c.restarted

/-- Fit the samples collected so far if they are due, or if the stroke ends. -/
def fitWindow (c : OutlineCapture R) (tolerance : R) (ending : Bool) : OutlineCapture R :=
  if c.left.length = 0 ∨ c.left.isFull then
    c
  else if c.left.length + 1 = Window.capacity ∨ ending then
    c.settle tolerance ending
  else
    { c with current := c.samplePolygon }

/-- Fit the samples collected so far if they are due. -/
def fit (c : OutlineCapture R) (tolerance : R) : OutlineCapture R :=
  c.fitWindow tolerance false

omit [Scalar R] in
/-- The closed outline of the settled edges, if either has an extent. -/
def outline (c : OutlineCapture R) : Curve R :=
  if !c.leftEdge.isEmpty && !c.rightEdge.isEmpty &&
      (1 < c.leftEdge.length || 1 < c.rightEdge.length) then
    (c.leftEdge.append c.rightEdge.reversed true).close
  else
    .empty

/-- The finished stroke, after a last fit. -/
def finish (c : OutlineCapture R) (tolerance : R) : Curve R :=
  (c.fitWindow tolerance true).outline

/-! ## Samples -/

/-- A sample of both edges, and the tolerance of the fit that follows it. -/
structure EdgeSample (R : Type) where
  /-- The sample of the left edge. -/
  left : Point R
  /-- The sample of the right edge. -/
  right : Point R
  /-- The tolerance. -/
  tolerance : R

/-- The capture that has taken samples of both edges, each of them followed by a fit. -/
def taken (samples : List (EdgeSample R)) : OutlineCapture R :=
  samples.foldl (fun c s => (c.push s.left s.right).fit s.tolerance) empty

end OutlineCapture

end Freehand
