import Freehand.Proofs.Scalar.Laws

/-!
# Numbers in order

On floating point the two zeros are equal, and what is no number (NaN) is different from itself and
compares with nothing.  Two scalars are *alike* if they are equal in this sense or none of them is a
number.

The smaller of two scalars is at most each of them that is a number, and above nothing else that is:
where numbers are in order (`Scalar.Ranked`), it is their greatest lower bound, with what is no
number on top of all numbers (`Scalar.AtMost`).  The same holds of the larger of two the other way
round (`Scalar.AtLeast`).  Bounds both ways are alike.
-/

namespace Freehand.Scalar

variable {R : Type} [Scalar R]

/-- If `b` is a number, then `a` is one that is not above it. -/
def AtMost (a b : R) : Prop :=
  (b == b) = true → a ≤ b

/-- If `b` is a number, then `a` is one that is not below it. -/
def AtLeast (a b : R) : Prop :=
  (b == b) = true → b ≤ a

variable (hlaw : Ranked R) {a b c : R}
include hlaw

namespace AtMost

theorem refl (a : R) : AtMost a a :=
  hlaw.le_refl a

/-- The order is transitive, with what is no number on top of it. -/
theorem trans (hab : AtMost a b) (hbc : AtMost b c) : AtMost a c := by
  intro hc
  have hle := hbc hc
  exact hlaw.le_trans _ _ _ (hab (hlaw.number _ _ hle).1) hle

/-- The smaller of two scalars is at most each of them, be they numbers or not. -/
theorem min_left (a b : R) : AtMost (min a b) a := by
  intro ha
  rw [min]
  split
  next hlt => exact hlaw.le_of_lt _ _ hlt
  next => exact hlaw.le_refl a ha

theorem min_right (a b : R) : AtMost (min a b) b := by
  intro hb
  rw [min]
  split
  next => exact hlaw.le_refl b hb
  next hlt =>
    split
    next ha => exact hlaw.le_of_not_lt _ _ hb ha hlt
    next => exact hlaw.le_refl b hb

omit hlaw in
/-- The smaller of two scalars is the greatest that is at most both. -/
theorem min (ha : AtMost c a) (hb : AtMost c b) : AtMost c (Scalar.min a b) := by
  rw [Scalar.min]
  split
  next => exact hb
  next => split <;> assumption

/-- Bounds both ways are alike: of what is no number, each is at most the other. -/
theorem alike (hab : AtMost a b) (hba : AtMost b a) : Alike a b := by
  cases ha : a == a with
  | true =>
    have hle := hba ha
    exact .inl (hlaw.beq_of_le _ _ (hab (hlaw.number _ _ hle).1) hle)
  | false =>
    refine .inr ⟨ha, Bool.eq_false_iff.2 fun hb => ?_⟩
    rw [(hlaw.number _ _ (hab hb)).1] at ha
    cases ha

end AtMost

namespace AtLeast

theorem refl (a : R) : AtLeast a a :=
  hlaw.le_refl a

theorem trans (hab : AtLeast a b) (hbc : AtLeast b c) : AtLeast a c := by
  intro hc
  have hle := hbc hc
  exact hlaw.le_trans _ _ _ hle (hab (hlaw.number _ _ hle).2)

/-- The larger of two scalars is at least each of them, be they numbers or not. -/
theorem max_left (a b : R) : AtLeast (max a b) a := by
  intro ha
  rw [max]
  split
  next hlt => exact hlaw.le_of_lt _ _ hlt
  next => exact hlaw.le_refl a ha

theorem max_right (a b : R) : AtLeast (max a b) b := by
  intro hb
  rw [max]
  split
  next => exact hlaw.le_refl b hb
  next hlt =>
    split
    next ha => exact hlaw.le_of_not_lt _ _ ha hb hlt
    next => exact hlaw.le_refl b hb

omit hlaw in
/-- The larger of two scalars is the least that is at least both. -/
theorem max (ha : AtLeast c a) (hb : AtLeast c b) : AtLeast c (Scalar.max a b) := by
  rw [Scalar.max]
  split
  next => exact hb
  next => split <;> assumption

theorem alike (hab : AtLeast a b) (hba : AtLeast b a) : Alike a b := by
  cases ha : a == a with
  | true =>
    have hle := hba ha
    exact .inl (hlaw.beq_of_le _ _ hle (hab (hlaw.number _ _ hle).2))
  | false =>
    refine .inr ⟨ha, Bool.eq_false_iff.2 fun hb => ?_⟩
    rw [(hlaw.number _ _ (hab hb)).2] at ha
    cases ha

end AtLeast

end Freehand.Scalar
