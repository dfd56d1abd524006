import Freehand.Geometry.Rect

/-!
# Affine maps

The map with coefficients `a b c d e f` sends `(x, y)` to `(a x + c y + e, b x + d y + f)`.
The product of two maps applies its right factor first.
-/

namespace Freehand

/-- An affine map of the plane. -/
structure Affine (R : Type) where
  /-- The share of `x` in the new abscissa. -/
  a : R
  /-- The share of `x` in the new ordinate. -/
  b : R
  /-- The share of `y` in the new abscissa. -/
  c : R
  /-- The share of `y` in the new ordinate. -/
  d : R
  /-- The displacement along the first axis. -/
  e : R
  /-- The displacement along the second axis. -/
  f : R
  deriving BEq, Repr, Inhabited

namespace Affine

variable {R : Type} [Scalar R]

/-- The map that moves nothing. -/
def identity : Affine R :=
  ⟨1, 0, 0, 1, 0, 0⟩

/-- The image of a point. -/
def apply (m : Affine R) (p : Point R) : Point R :=
  ⟨m.a * p.x + m.c * p.y + m.e, m.b * p.x + m.d * p.y + m.f⟩

instance : Mul (Affine R) where
  mul m n :=
    ⟨m.a * n.a + m.c * n.b, m.b * n.a + m.d * n.b,
     m.a * n.c + m.c * n.d, m.b * n.c + m.d * n.d,
     m.a * n.e + m.c * n.f + m.e, m.b * n.e + m.d * n.f + m.f⟩

/-- The factor by which the map scales areas. -/
def determinant (m : Affine R) : R :=
  m.a * m.d - m.b * m.c

/-- The map that undoes `m`, which multiplies by the inverse of the determinant. -/
def inverse (m : Affine R) : Affine R :=
  let s := 1 / m.determinant
  ⟨s * m.d, -s * m.b, -s * m.c, s * m.a,
   s * (m.c * m.f - m.d * m.e), s * (m.b * m.e - m.a * m.f)⟩

/-- The smallest rectangle around the image of a rectangle. -/
def mapRect (m : Affine R) (r : Rect R) : Rect R :=
  (Rect.ofCorners (m.apply ⟨r.x0, r.y0⟩) (m.apply ⟨r.x0, r.y1⟩)).union
    (Rect.ofCorners (m.apply ⟨r.x1, r.y0⟩) (m.apply ⟨r.x1, r.y1⟩))

end Affine

end Freehand
