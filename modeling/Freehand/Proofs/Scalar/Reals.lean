import Freehand.Proofs.Fit.Joints
import Mathlib.Analysis.SpecialFunctions.Complex.Arg

/-!
# Exact arithmetic

The real numbers as scalars.  No operation rounds, all numbers are finite, and `==` is equality.
Points that differ are apart, so a run that does not stand still has a length
(`Scalar.measured_reals`).
-/

namespace Freehand

/-- Real numbers as scalars. -/
noncomputable instance Scalar.reals : Scalar ℝ where
  toBEq := instBEqOfDecidableEq
  decidableLT := Real.decidableLT
  decidableLE := Real.decidableLE
  pi := Real.pi
  sqrt := Real.sqrt
  sin := Real.sin
  cos := Real.cos
  atan2 y x := Complex.arg ⟨x, y⟩
  isFinite _ := true

namespace Scalar

theorem max_reals (a b : ℝ) : max a b = Max.max a b := by
  rw [max]
  split
  next hlt => exact (max_eq_right hlt.le).symm
  next hle => rw [if_pos (beq_self_eq_true a), max_eq_left (not_lt.1 hle)]

theorem abs_reals (a : ℝ) : abs a = |a| := by
  rw [abs]
  split
  next hneg => exact (abs_of_neg hneg).symm
  next hnonneg => exact (abs_of_nonneg (not_lt.1 hnonneg)).symm

end Scalar

/-! ## Points -/

namespace Point

section

variable {R : Type}

@[ext]
theorem ext {p q : Point R} (hx : p.x = q.x) (hy : p.y = q.y) : p = q := by
  cases p
  cases q
  exact congrArg₂ Point.mk hx hy

variable [Scalar R] (p q : Point R)

@[simp]
theorem add_x : (p + q).x = p.x + q.x := rfl

@[simp]
theorem add_y : (p + q).y = p.y + q.y := rfl

@[simp]
theorem sub_x : (p - q).x = p.x - q.x := rfl

@[simp]
theorem sub_y : (p - q).y = p.y - q.y := rfl

@[simp]
theorem smul_x (s : R) : (s • p).x = p.x * s := rfl

@[simp]
theorem smul_y (s : R) : (s • p).y = p.y * s := rfl

theorem normSq_eq : p.normSq = p.x * p.x + p.y * p.y := rfl

end

theorem lerp_zero (p q : Point ℝ) : p.lerp q 0 = p := by
  rw [lerp]
  ext <;> simp

theorem lerp_one (p q : Point ℝ) : p.lerp q 1 = q := by
  rw [lerp]
  ext <;> simp

theorem distance_nonneg (p q : Point ℝ) : 0 ≤ p.distance q :=
  Real.sqrt_nonneg _

/-- Points that differ are apart. -/
theorem distance_pos_of_ne {p q : Point ℝ} (hne : p ≠ q) : 0 < p.distance q := by
  refine Real.sqrt_pos.2 ?_
  rw [normSq_eq, sub_x, sub_y]
  by_contra hzero
  have hx : p.x = q.x := by nlinarith [mul_self_nonneg (p.x - q.x), mul_self_nonneg (p.y - q.y)]
  have hy : p.y = q.y := by nlinarith [mul_self_nonneg (p.x - q.x), mul_self_nonneg (p.y - q.y)]
  exact hne (ext hx hy)

end Point

/-! ## Chords -/

namespace Fit

/-- Lengths do not decrease along a run. -/
theorem le_of_mem_chordLengths {length l : ℝ} {p : Point ℝ} {run : List (Point ℝ)}
    (hl : l ∈ chordLengths length p run) : length ≤ l := by
  induction run generalizing length p with
  | nil => cases hl
  | cons q run ih =>
    have hnext : length ≤ length + p.distance q := by linarith [p.distance_nonneg q]
    rcases List.mem_cons.1 hl with rfl | hl
    · exact hnext
    · exact hnext.trans (ih hl)

/-- No length along a run is larger than the last one. -/
theorem le_of_getLast?_chordLengths {length l total : ℝ} {p : Point ℝ} {run : List (Point ℝ)}
    (htotal : (chordLengths length p run).getLast? = some total)
    (hl : l ∈ chordLengths length p run) : l ≤ total := by
  induction run generalizing length p with
  | nil => cases hl
  | cons q run ih =>
    rw [chordLengths, List.getLast?_cons, Option.some_inj] at htotal
    cases hlast : (chordLengths (length + p.distance q) q run).getLast? with
    | none =>
      rw [hlast] at htotal
      rw [chordLengths, List.getLast?_eq_none_iff.1 hlast, List.mem_singleton] at hl
      exact (hl.trans htotal).le
    | some total' =>
      rw [hlast] at htotal
      obtain rfl : total' = total := htotal
      rcases List.mem_cons.1 hl with rfl | hl
      · exact le_of_mem_chordLengths (List.mem_of_getLast? hlast)
      · exact ih hlast hl

end Fit

/-- In exact arithmetic all numbers are finite, and runs that do not stand still have a length. -/
theorem Scalar.measured_reals : Scalar.Measured ℝ where
  le_refl := le_refl
  le_trans _ _ _ := le_trans
  le_of_lt _ _ := le_of_lt
  le_of_not_lt _ _ := le_of_not_gt
  number := beq_self_eq_true
  eq_of_beq _ _ := eq_of_beq
  finite _ := rfl
  chords run hchain hlong := by
    match run with
    | [] | [_] => exact absurd hlong (by simp)
    | p :: q :: run =>
      obtain ⟨hne, -⟩ := List.isChain_cons_cons.1 hchain
      obtain ⟨total, htotal⟩ : ∃ total, (Fit.chordLengths 0 p (q :: run)).getLast? = some total :=
        ⟨_, List.getLast?_cons ..⟩
      have hfirst : 0 + p.distance q ≤ total := Fit.le_of_getLast?_chordLengths htotal (.head _)
      have hpos : 0 < total := by linarith [Point.distance_pos_of_ne hne]
      exact Fit.exists_chordParameters? htotal hpos.not_ge rfl

end Freehand
