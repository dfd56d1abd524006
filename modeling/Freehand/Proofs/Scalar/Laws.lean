import Freehand.Fit.Parameters
import Freehand.Geometry.Affine
import Mathlib.Data.List.Chain

/-!
# Laws of numbers

What results take for granted of the numbers that strokes and scenes are computed with.  There is no
law of all number types: a result names the one that it needs.

* On floating point the two zeros are equal, and what is no number (NaN) is different from itself
  and compares with nothing.  Two scalars are *alike* if they are equal in this sense or none of
  them is a number.  `Scalar.Ranked`, `Scalar.Comparable` and `Scalar.Steady` hold of such numbers.
* `Scalar.Exact`, `Scalar.Ordered` and `Scalar.Measured` leave no number out.  Whole numbers obey
  them, although quotients and roots are rounded.
* `Scalar.Unrounded` is exact arithmetic.
-/

namespace Freehand

/-! ## Numbers and what is none -/

namespace Scalar

variable {R : Type} [Scalar R]

/-- The numbers are equal, or neither of them is a number. -/
def Alike (a b : R) : Prop :=
  (a == b) = true ∨ (a == a) = false ∧ (b == b) = false

instance (a b : R) : Decidable (Alike a b) :=
  inferInstanceAs (Decidable (_ ∨ _))

/-- Numbers are in a linear order up to `==`, and only numbers are. -/
structure Ranked (R : Type) [Scalar R] : Prop where
  le_refl : ∀ a : R, (a == a) = true → a ≤ a
  le_trans : ∀ a b c : R, a ≤ b → b ≤ c → a ≤ c
  le_of_lt : ∀ a b : R, a < b → a ≤ b
  le_of_not_lt : ∀ a b : R, (a == a) = true → (b == b) = true → ¬a < b → b ≤ a
  number : ∀ a b : R, a ≤ b → (a == a) = true ∧ (b == b) = true
  beq_of_le : ∀ a b : R, a ≤ b → b ≤ a → (a == b) = true

/-- On finite numbers `==` is an equivalence. -/
structure Comparable (R : Type) [Scalar R] : Prop where
  refl : ∀ a : R, isFinite a = true → (a == a) = true
  symm : ∀ a b : R, (a == b) = true → (b == a) = true
  trans : ∀ a b c : R, (a == b) = true → (b == c) = true → (a == c) = true

end Scalar

variable {R : Type} [Scalar R]

/-- The coefficients are alike. -/
structure Affine.Alike (m n : Affine R) : Prop where
  a : Scalar.Alike m.a n.a
  b : Scalar.Alike m.b n.b
  c : Scalar.Alike m.c n.c
  d : Scalar.Alike m.d n.d
  e : Scalar.Alike m.e n.e
  f : Scalar.Alike m.f n.f

/-- What placing takes for granted of scalars: `==` is an equivalence between numbers, sums and
products of what is alike are alike, and a root that nobody moved or faded is where it should be. -/
structure Scalar.Steady (R : Type) [Scalar R] : Prop where
  symm : ∀ a b : R, (a == b) = true → (b == a) = true
  trans : ∀ a b c : R, (a == b) = true → (b == c) = true → (a == c) = true
  add : ∀ a a' b b' : R, Alike a a' → Alike b b' → Alike (a + b) (a' + b')
  mul : ∀ a a' b b' : R, Alike a a' → Alike b b' → Alike (a * b) (a' * b')
  one_mul_one : Alike (1 * 1) (1 : R)
  identity_mul_identity : Affine.Alike (.identity * .identity) (.identity : Affine R)

/-! ## Numbers only -/

/-- What an update takes for granted of scalars: what it finds equal is the same, and a root that
nobody moved or faded is where it should be. -/
structure Scalar.Exact (R : Type) [Scalar R] : Prop where
  eq_of_beq : ∀ a b : R, (a == b) = true → a = b
  one_mul_one : (1 * 1 : R) = 1
  identity_mul_identity : (Affine.identity * Affine.identity : Affine R) = .identity

/-- All scalars are numbers, in a linear order. -/
structure Scalar.Ordered (R : Type) [Scalar R] : Prop where
  le_refl : ∀ a : R, a ≤ a
  le_trans : ∀ a b c : R, a ≤ b → b ≤ c → a ≤ c
  le_of_lt : ∀ a b : R, a < b → a ≤ b
  le_of_not_lt : ∀ a b : R, ¬a < b → b ≤ a
  number : ∀ a : R, (a == a) = true

/-- All scalars are finite numbers in a linear order, `==` is equality, and samples that differ are
apart: the chords of a run that does not stand still add up to something. -/
structure Scalar.Measured (R : Type) [Scalar R] : Prop extends Scalar.Ordered R where
  eq_of_beq : ∀ a b : R, (a == b) = true → a = b
  finite : ∀ a : R, isFinite a = true
  chords : ∀ run : List (Point R), run.IsChain (· ≠ ·) → 2 ≤ run.length →
    ∃ u, Fit.chordParameters? run = some u

theorem Scalar.Measured.comparable (h : Scalar.Measured R) : Scalar.Comparable R where
  refl a _ := h.number a
  symm a b hab := by
    rw [h.eq_of_beq a b hab]
    exact h.number b
  trans a b c hab hbc := by
    rw [h.eq_of_beq a b hab]
    exact hbc

/-- The first guess of the parameters fails only where the chords add up to nothing or to what is
not finite. -/
theorem Fit.exists_chordParameters? {p : Point R} {run : List (Point R)} {total : R}
    (htotal : (chordLengths 0 p run).getLast? = some total) (hpos : ¬total ≤ 0)
    (hfinite : Scalar.isFinite total = true) : ∃ u, chordParameters? (p :: run) = some u := by
  have hguess : ¬(total ≤ 0 ∨ (!Scalar.isFinite total) = true) := by
    rw [hfinite]
    exact not_or.2 ⟨hpos, nofun⟩
  refine ⟨shares total (0 :: chordLengths 0 p run), ?_⟩
  rw [chordParameters?, htotal]
  exact if_neg hguess

/-! ## Exact arithmetic -/

/-- Exact arithmetic: sums and products are those of a commutative ring, quotients undo products,
`==` is equality, and all numbers are finite. -/
structure Scalar.Unrounded (R : Type) [Scalar R] : Prop where
  add_assoc : ∀ a b c : R, a + b + c = a + (b + c)
  zero_add : ∀ a : R, 0 + a = a
  neg_add_cancel : ∀ a : R, -a + a = 0
  sub_eq_add_neg : ∀ a b : R, a - b = a + -b
  mul_assoc : ∀ a b c : R, a * b * c = a * (b * c)
  mul_comm : ∀ a b : R, a * b = b * a
  one_mul : ∀ a : R, 1 * a = a
  left_distrib : ∀ a b c : R, a * (b + c) = a * b + a * c
  div_mul_cancel : ∀ a b : R, b ≠ 0 → a / b * b = a
  beq_iff_eq : ∀ a b : R, (a == b) = true ↔ a = b
  finite : ∀ a : R, isFinite a = true

end Freehand
