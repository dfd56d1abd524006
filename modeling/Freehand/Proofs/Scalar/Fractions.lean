import Freehand.Proofs.Scalar.Laws
import Mathlib.Data.Rat.Sqrt

/-!
# Fractions as scalars

Sums, products and quotients of fractions are computed without rounding
(`Scalar.unrounded_fractions`), square roots are rounded down.
-/

namespace Freehand

/-- Fractions as scalars, with square roots rounded down and the angle of no vector. -/
instance Scalar.fractions : Scalar Rat where
  zero := Rat.ofInt (Int.ofNat 0)
  one := Rat.ofInt (Int.ofNat 1)
  add := Rat.add
  sub := Rat.sub
  mul := Rat.mul
  div := Rat.div
  neg := Rat.neg
  ofScientific m negative e :=
    if negative then mkRat (Int.ofNat m) (Nat.pow 10 e)
    else Rat.ofInt (Int.ofNat (Nat.mul m (Nat.pow 10 e)))
  beq a b := decide (a = b)
  lt a b := Rat.blt a b = true
  le a b := Rat.blt b a = false
  decidableLT _ _ := instDecidableEqBool _ _
  decidableLE _ _ := instDecidableEqBool _ _
  pi := Rat.ofInt (Int.ofNat 3)
  sqrt := Rat.sqrt
  sin _ := Rat.ofInt (Int.ofNat 0)
  cos _ := Rat.ofInt (Int.ofNat 1)
  atan2 _ _ := Rat.ofInt (Int.ofNat 0)
  isFinite _ := true

/-- Fractions do not round. -/
theorem Scalar.unrounded_fractions : Scalar.Unrounded Rat where
  add_assoc := Rat.add_assoc
  zero_add := Rat.zero_add
  neg_add_cancel := Rat.neg_add_cancel
  sub_eq_add_neg := Rat.sub_eq_add_neg
  mul_assoc := Rat.mul_assoc
  mul_comm := Rat.mul_comm
  one_mul := Rat.one_mul
  left_distrib := Rat.mul_add
  div_mul_cancel _ _ h := Rat.div_mul_cancel h
  beq_iff_eq _ _ := decide_eq_true_iff
  finite _ := rfl

end Freehand
