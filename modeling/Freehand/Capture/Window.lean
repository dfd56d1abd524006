import Freehand.Geometry.Point

/-!
# Sample windows

A window holds the samples that wait to be fitted.  It takes a fixed number of samples and refuses
more.
-/

namespace Freehand

/-- A run of samples that wait to be fitted. -/
structure Window (R : Type) where
  /-- The samples, oldest first. -/
  points : List (Point R) := []
  deriving BEq, Repr, Inhabited

namespace Window

variable {R : Type}

/-- The number of samples that a window takes. -/
def capacity : Nat :=
  16

/-- The window without samples. -/
def empty : Window R :=
  ⟨[]⟩

/-- The number of samples. -/
def length (w : Window R) : Nat :=
  w.points.length

/-- The window takes no more samples. -/
def isFull (w : Window R) : Bool :=
  capacity ≤ w.length

/-- The newest sample. -/
def last? (w : Window R) : Option (Point R) :=
  w.points.getLast?

/-- The window with one more sample, unless it is full. -/
def push (w : Window R) (p : Point R) : Window R :=
  if w.isFull then w else ⟨w.points ++ [p]⟩

/-- The window with the sample at a position only; unchanged if there is no such sample. -/
def restart (w : Window R) (i : Nat) : Window R :=
  match w.points[i]? with
  | some p => ⟨[p]⟩
  | none => w

end Window

end Freehand
