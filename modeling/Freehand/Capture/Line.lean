import Freehand.Capture.Window
import Freehand.Curve
import Freehand.Fit.Pieces
import Freehand.Pen

/-!
# Line capture

A line capture follows the centre of the pen and leaves an open path.

The samples of the window are fitted by one cubic segment, again after every sample.  When they no
longer fit, or the window is full, the last segment that did fit is settled and a new window starts
at its end with the newest sample.  If nothing has been fitted so far, the samples themselves are
settled as straight lines.
-/

namespace Freehand

/-- The state of a line capture. -/
structure LineCapture (R : Type) where
  /-- The samples not settled yet. -/
  window : Window R
  /-- The segment through the window, if one was fitted. -/
  current : Curve R
  /-- The settled part of the stroke as one path. -/
  accumulated : Curve R
  /-- The settled part of the stroke piece by piece. -/
  settled : List (Curve R)
  deriving BEq, Repr

namespace LineCapture

variable {R : Type}

/-- A capture without samples. -/
def empty : LineCapture R :=
  ⟨.empty, .empty, .empty, []⟩

/-- Record a sample. -/
def push (c : LineCapture R) (p : Point R) : LineCapture R :=
  { c with window := c.window.push p }

/-- The settled path with the current segment behind it. -/
def joined (c : LineCapture R) : Curve R :=
  if c.current.isEmpty then
    c.accumulated
  else if c.accumulated.isEmpty then
    c.current
  else
    match c.current.lastSegment? with
    | some s => c.accumulated.pushSegment s
    | none => c.accumulated

/-- Settle the samples themselves as straight lines. -/
def settleSamples (c : LineCapture R) : LineCapture R :=
  let points := c.window.points
  { window := c.window.restart (points.length - 1)
    current := c.current
    accumulated :=
      c.accumulated.extendLines (if c.accumulated.isEmpty then points else points.drop 1)
    settled := c.settled ++ [.polyline points] }

variable [Scalar R]

/-- The curve of a fitted segment, or the empty curve if there is none. -/
def fitted (points : List (Point R)) (tolerance : R) : Curve R :=
  match Fit.curve points tolerance with
  | .ok (some s) => .ofCubics [s]
  | _ => .empty

/-- Settle the current segment, which ends at `stop`, and go on from there to the newest sample. -/
def settleCurrent (c : LineCapture R) (tolerance : R) (stop newest : Point R) : LineCapture R :=
  let window : Window R := ⟨if newest != stop then [stop, newest] else [stop]⟩
  { window
    current := fitted window.points tolerance
    accumulated := c.joined
    settled := c.settled ++ [c.current] }

/-- Settle what has been fitted and start a new window. -/
def split (c : LineCapture R) (tolerance : R) : LineCapture R :=
  match c.window.last?, c.current.currentPoint? with
  | none, _ => c
  | some newest, some stop => c.settleCurrent tolerance stop newest
  | some _, none => c.settleSamples

/-- Fit the samples collected so far. -/
def fit (c : LineCapture R) (tolerance : R) : LineCapture R :=
  if c.window.isFull then
    c.split tolerance
  else
    match Fit.curve c.window.points tolerance with
    | .ok (some s) => { c with current := .ofCubics [s] }
    | .ok none => c
    | .error _ => c.split tolerance

/-- The finished stroke, after a last fit. -/
def finish (c : LineCapture R) (tolerance : R) : Curve R :=
  (c.fit tolerance).joined

/-! ## Calls -/

/-- What a line capture is asked to do while a stroke is drawn. -/
inductive Call (R : Type) where
  /-- Record a position. -/
  | push (p : Point R)
  /-- Record where the pen is. -/
  | sample (pen : Pen R) (settings : Settings R)
  /-- Fit the samples collected so far. -/
  | fit (tolerance : R)

/-- The capture after a call. -/
def perform (c : LineCapture R) : Call R → LineCapture R
  | .push p => c.push p
  | .sample pen _ => c.push pen.viewPoint
  | .fit tolerance => c.fit tolerance

/-- The capture after calls that start with nothing recorded. -/
def performed (calls : List (Call R)) : LineCapture R :=
  calls.foldl perform empty

/-- The capture that has taken samples, each of them followed by a fit. -/
def taken (tolerance : R) (samples : List (Point R)) : LineCapture R :=
  samples.foldl (fun c p => (c.push p).fit tolerance) empty

end LineCapture

end Freehand
