import Freehand.Geometry.Bezier

/-!
# Parameters of samples

Each sample of a run is given a parameter, at which a fitted segment should come close to it.

* The first guess is the share of the chords before the sample in the sum of all chords.
* A Newton step moves the parameters of the inner samples towards the feet of their samples on a
  segment.  A step that would divide by almost nothing, or leave the numbers, is not taken.
-/

namespace Freehand.Fit

variable {R : Type} [Scalar R]

/-! ## Chord lengths -/

/-- The lengths along the chords of a run at the samples after `p`, which lies at `length`. -/
def chordLengths (length : R) (p : Point R) : List (Point R) → List R
  | [] => []
  | q :: rest =>
    let next := length + p.distance q
    next :: chordLengths next q rest

/-- The lengths along a run divided by its whole length.  The last one is one. -/
def shares (total : R) : List R → List R
  | [] => []
  | [_] => [1]
  | l :: rest => l / total :: shares total rest

/-- The first guess of the parameters of a run, unless its chords add up to nothing. -/
def chordParameters? : List (Point R) → Option (List R)
  | [] => none
  | p :: rest =>
    let lengths := chordLengths 0 p rest
    match lengths.getLast? with
    | none => none
    | some total =>
      if total ≤ 0 ∨ !Scalar.isFinite total then none else some (shares total (0 :: lengths))

/-! ## Newton steps -/

/-- The least difference from one. -/
def machineEpsilon : R :=
  2.220446049250313e-16

/-- The parameter `t` of the sample `p` moved towards the foot of `p` on a segment. -/
def newtonStep (s : Cubic R) (p : Point R) (t : R) : R :=
  let d1 := s.derivative
  let gap := s.eval t - p
  let q1 := d1.eval t
  let q2 := d1.slope t
  let numerator := gap.dot q1
  let denominator := q1.normSq + gap.dot q2
  if Scalar.abs denominator < machineEpsilon ∨ !Scalar.isFinite denominator then
    t
  else
    let improved := t - numerator / denominator
    if Scalar.isFinite improved then Scalar.clamp 0 1 improved else t

/-- The parameters of a run without its first sample, the inner ones moved. -/
def refineInner (s : Cubic R) : List (Point R) → List R → List R
  | p :: q :: data, t :: u => newtonStep s p t :: refineInner s (q :: data) u
  | _, u => u

/-- The parameters of a run, the inner ones moved towards the feet of their samples. -/
def refine (s : Cubic R) : List (Point R) → List R → List R
  | _ :: data, t :: u => t :: refineInner s data u
  | _, u => u

/-! ## Errors -/

/-- The largest squared distance of an inner sample from its point on a segment, and the position
of that sample.  `worst` is the best candidate among the samples before position `i`. -/
def worstInner (s : Cubic R) (i : Nat) (worst : R × Nat) : List (Point R) → List R → R × Nat
  | p :: q :: data, t :: u =>
    let error := (s.eval t - p).normSq
    worstInner s (i + 1) (if worst.1 < error then (error, i) else worst) (q :: data) u
  | _, _ => worst

/-- The largest squared distance of an inner sample of a run from its point on a segment, and the
position of that sample.  Where no sample is off, the middle position is named. -/
def worst (s : Cubic R) (data : List (Point R)) (u : List R) : R × Nat :=
  worstInner s 1 (0, data.length / 2) data.tail u.tail

end Freehand.Fit
