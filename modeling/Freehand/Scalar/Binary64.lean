import Freehand.Scalar

/-!
# Binary floating point as a scalar

The number type that the program runs on.  All operations are those of 64-bit binary floating
point, each rounded on its own.
-/

namespace Freehand

instance : Scalar Float where
  zero := 0.0
  one := 1.0
  decidableLT := fun a b => Float.decLt a b
  decidableLE := fun a b => Float.decLe a b
  pi := 3.141592653589793
  sqrt := Float.sqrt
  sin := Float.sin
  cos := Float.cos
  atan2 := Float.atan2
  isFinite := Float.isFinite

end Freehand
