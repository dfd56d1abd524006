import Freehand.Geometry.Bezier

/-!
# Tangents of samples

Directions in which a fitted segment leaves its ends, estimated from the samples.

* At an end, the start derivative of the parabola through the three samples there is taken, at
  parameters given by their chords.  Where that is no direction, or points backwards, the first
  chord is taken.
* Inside a run, the direction from the next sample to the one before is taken.
-/

namespace Freehand.Fit

variable {R : Type} [Scalar R]

/-- The start derivative of the parabola through three samples, the second and third of which lie
at the lengths `s1` and `s2` from the first. -/
def parabolaSlope (d0 d1 d2 : Point R) (s1 s2 : R) : Point R :=
  -(1 / s1 + 1 / s2) • d0 + (s2 / (s1 * (s2 - s1))) • d1 - (s1 / (s2 * (s2 - s1))) • d2

/-- The direction that leaves the sample `d0` towards `d1` and then `d2`. -/
def endTangent? (d0 d1 d2 : Point R) : Option (Point R) :=
  let chord := d1 - d0
  let s1 := d0.distance d1
  let s2 := s1 + d1.distance d2
  if s1 ≤ 0 ∨ s2 ≤ s1 then
    chord.unit?
  else
    match (parabolaSlope d0 d1 d2 s1 s2).unit? with
    | some t => if 0 < t.dot chord then some t else chord.unit?
    | none => chord.unit?

/-- The direction that leaves the first sample of a run. -/
def leftTangent? : List (Point R) → Option (Point R)
  | d0 :: d1 :: d2 :: _ => endTangent? d0 d1 d2
  | [d0, d1] => (d1 - d0).unit?
  | _ => none

/-- The direction that leaves the last sample of a run backwards. -/
def rightTangent? (data : List (Point R)) : Option (Point R) :=
  leftTangent? data.reverse

/-- The direction at an inner position of a run, pointing backwards. -/
def centerTangent? (data : List (Point R)) (i : Nat) : Option (Point R) :=
  match data[i - 1]?, data[i + 1]? with
  | some before, some after => (before - after).unit?
  | _, _ => none

end Freehand.Fit
