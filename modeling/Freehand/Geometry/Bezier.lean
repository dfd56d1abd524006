import Freehand.Geometry.Rect

/-!
# Bezier segments

Quadratic and cubic segments, their points, derivatives and exact bounding boxes.  The box of a
segment is the box of its ends, widened to the points where a coordinate's derivative vanishes
strictly inside the segment.
-/

namespace Freehand

/-- A quadratic segment. -/
structure Quadratic (R : Type) where
  /-- The start. -/
  p0 : Point R
  /-- The control point. -/
  p1 : Point R
  /-- The end. -/
  p2 : Point R
  deriving BEq, Repr, Inhabited

/-- A cubic segment. -/
structure Cubic (R : Type) where
  /-- The start. -/
  p0 : Point R
  /-- The control point next to the start. -/
  p1 : Point R
  /-- The control point next to the end. -/
  p2 : Point R
  /-- The end. -/
  p3 : Point R
  deriving BEq, Repr, Inhabited

variable {R : Type} [Scalar R]

/-- The parameters of a list that lie strictly between the ends of a segment. -/
def interiorParameters (ts : List R) : List R :=
  ts.filter fun t => 0 < t ∧ t < 1

namespace Quadratic

/-- The point at parameter `t`. -/
def eval (s : Quadratic R) (t : R) : Point R :=
  let r := 1 - t
  (r * r) • s.p0 + t • ((r * 2.0) • s.p1 + t • s.p2)

/-- The derivative at parameter `t`. -/
def slope (s : Quadratic R) (t : R) : Point R :=
  ((2.0 : R) • (s.p1 - s.p0)).lerp ((2.0 : R) • (s.p2 - s.p1)) t

/-- Where one coordinate's derivative, which runs from `d0` to `d1`, vanishes. -/
def turningParameter (d0 d1 : R) : List R :=
  let change := d1 - d0
  if change == 0 then [] else interiorParameters [-d0 / change]

/-- The interior parameters at which a coordinate turns. -/
def extrema (s : Quadratic R) : List R :=
  let d0 := s.p1 - s.p0
  let d1 := s.p2 - s.p1
  turningParameter d0.x d1.x ++ turningParameter d0.y d1.y

/-- The bounding box. -/
def bounds (s : Quadratic R) : Rect R :=
  s.extrema.foldl (fun box t => box.insert (s.eval t)) (.ofCorners s.p0 s.p2)

end Quadratic

namespace Cubic

/-- The point at parameter `t`. -/
def eval (s : Cubic R) (t : R) : Point R :=
  let r := 1 - t
  (r * r * r) • s.p0 + t • ((r * r * 3.0) • s.p1 + t • ((r * 3.0) • s.p2 + t • s.p3))

/-- The curve of derivatives. -/
def derivative (s : Cubic R) : Quadratic R :=
  ⟨(3.0 : R) • (s.p1 - s.p0), (3.0 : R) • (s.p2 - s.p1), (3.0 : R) • (s.p3 - s.p2)⟩

/-- Where one coordinate's derivative, given by the differences of its control values, vanishes. -/
def turningParameters (d0 d1 d2 : R) : List R :=
  interiorParameters (Scalar.quadraticRoots d0 (2.0 * (d1 - d0)) (d0 - 2.0 * d1 + d2))

/-- The interior parameters at which a coordinate turns. -/
def extrema (s : Cubic R) : List R :=
  let d0 := s.p1 - s.p0
  let d1 := s.p2 - s.p1
  let d2 := s.p3 - s.p2
  turningParameters d0.x d1.x d2.x ++ turningParameters d0.y d1.y d2.y

/-- The bounding box. -/
def bounds (s : Cubic R) : Rect R :=
  s.extrema.foldl (fun box t => box.insert (s.eval t)) (.ofCorners s.p0 s.p3)

/-- The same segment drawn from its end to its start. -/
def reversed (s : Cubic R) : Cubic R :=
  ⟨s.p3, s.p2, s.p1, s.p0⟩

end Cubic

end Freehand
