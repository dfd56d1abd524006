import Freehand.Scalar

/-!
# Points and vectors

A pair of coordinates, read as a position or as a displacement.
-/

namespace Freehand

/-- A position or a displacement in the plane. -/
structure Point (R : Type) where
  /-- The abscissa. -/
  x : R
  /-- The ordinate. -/
  y : R
  deriving BEq, Repr, Inhabited

namespace Point

variable {R : Type} [Scalar R]

instance : Zero (Point R) := ⟨⟨0, 0⟩⟩
instance : Add (Point R) := ⟨fun p q => ⟨p.x + q.x, p.y + q.y⟩⟩
instance : Sub (Point R) := ⟨fun p q => ⟨p.x - q.x, p.y - q.y⟩⟩
instance : Neg (Point R) := ⟨fun p => ⟨-p.x, -p.y⟩⟩
instance : SMul R (Point R) := ⟨fun s p => ⟨p.x * s, p.y * s⟩⟩

/-- The scalar product. -/
def dot (p q : Point R) : R :=
  p.x * q.x + p.y * q.y

/-- The squared length. -/
def normSq (p : Point R) : R :=
  p.dot p

/-- The length. -/
def norm (p : Point R) : R :=
  Scalar.sqrt p.normSq

/-- The length of the way from `p` to `q`. -/
def distance (p q : Point R) : R :=
  (p - q).norm

/-- The point a share `t` of the way from `p` to `q`. -/
def lerp (p q : Point R) (t : R) : Point R :=
  p + t • (q - p)

/-- The vector divided by a number, which is multiplied by the number's inverse. -/
def dividedBy (p : Point R) (s : R) : Point R :=
  (1 / s) • p

/-- The angle of a vector against the first axis. -/
def angle (p : Point R) : R :=
  Scalar.atan2 p.y p.x

/-- The unit vector at an angle. -/
def ofAngle (a : R) : Point R :=
  ⟨Scalar.cos a, Scalar.sin a⟩

/-- Both coordinates are finite. -/
def isFinite (p : Point R) : Bool :=
  Scalar.isFinite p.x && Scalar.isFinite p.y

/-- The vector of length one in the direction of `p`, unless `p` is zero or not finite. -/
def unit? (p : Point R) : Option (Point R) :=
  let length := p.norm
  if 0 < length ∧ Scalar.isFinite length then some (p.dividedBy length) else none

end Point

end Freehand
