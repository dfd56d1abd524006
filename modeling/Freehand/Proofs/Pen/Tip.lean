import Freehand.Proofs.Pen.Zoom

/-!
# The half circle of the tip

In exact arithmetic the reconciliation keeps what it promises, for all angles.

* It changes the direction across the motion by whole turns and the half turn that is taken back
  later (`Tip.exists_reconciled_eq`), and ends within a quarter turn of the fixed angle
  (`Tip.abs_reconciled_sub_le`).
* The flatness shares that distance.  The blend stays within one share of the fixed angle and, once
  the half turn is taken back, within the other share of the direction across.
* So the tip never points to the right of the motion, and no edge changes sides
  (`Pen.edges_nonneg`).  After a pull with settings in their range this is so for the way the pen
  has gone (`Pen.edges_of_pull`).
-/

namespace Freehand

-- Reals are divided both as scalars and as a field.  The two quotients are the same, but which of
-- them `/` stands for would depend on the modules that are imported.  Here it is the field's, which
-- the lemmas about quotients of reals are stated for.
attribute [-instance] Scalar.toDiv

open Real

/-! ## Reconciliation -/

namespace Tip

variable {fixed across : ℝ} (flatness : ℝ)

theorem isOpposed_iff : isOpposed fixed across = true ↔ π / 2 < |across - fixed| := by
  have htwo : (2.0 : ℝ) = 2 := by norm_num
  rw [isOpposed, decide_eq_true_iff, Scalar.abs_reals]
  exact iff_of_eq (congrArg (π / · < _) htwo)

/-- An angle leaves the range of one turn at one end only. -/
theorem wrapped_eq (a : ℝ) :
    wrapped a = if π < a then a - 2 * π else if a < -π then a + 2 * π else a := by
  simp only [wrapped, Scalar.pi]
  norm_num
  split
  next hlt => exact if_neg (by linarith)
  next => rfl

theorem exists_wrapped_eq (a : ℝ) : ∃ turns : ℤ, wrapped a = a + turns * (2 * π) := by
  rw [wrapped_eq]
  split
  · exact ⟨-1, by push_cast; ring⟩
  · split
    · exact ⟨1, by push_cast; ring⟩
    · exact ⟨0, by push_cast; ring⟩

/-- The half turn of the reconciliation. -/
noncomputable def turnedBy (fixed across : ℝ) : ℝ :=
  if isOpposed fixed across then π else 0

theorem reconciled_eq : reconciled fixed across = wrapped (across + turnedBy fixed across) := by
  rw [reconciled, turnedBy]
  split
  · rfl
  · rw [add_zero]

theorem exists_reconciled_eq (fixed across : ℝ) :
    ∃ turns : ℤ, reconciled fixed across = across + turnedBy fixed across + turns * (2 * π) := by
  rw [reconciled_eq]
  exact exists_wrapped_eq _

/-- A direction that stands opposed is turned to the other side of the fixed angle, where a whole
turn may have to be taken off. -/
theorem abs_reconciled_sub_le (hfixed : fixed ∈ Set.Icc (-(π / 2)) (π / 2))
    (hacross : across ∈ Set.Ioc (-π) π) : |reconciled fixed across - fixed| ≤ π / 2 := by
  obtain ⟨hlo, hhi⟩ := hfixed
  obtain ⟨hlo', hhi'⟩ := hacross
  rw [reconciled_eq, turnedBy, wrapped_eq]
  by_cases hopposed : isOpposed fixed across = true
  · rw [if_pos hopposed]
    rcases lt_abs.1 (isOpposed_iff.1 hopposed) with habove | hbelow
    · -- As `fixed` is no less than `-(π / 2)`, `across` is positive, and half a turn leads out of
      -- the range.
      rw [if_pos (by linarith), abs_le]
      constructor <;> linarith
    · rw [if_neg (by linarith), if_neg (by linarith), abs_le]
      constructor <;> linarith
  · rw [if_neg hopposed, add_zero, if_neg hhi'.not_gt, if_neg hlo'.not_gt]
    exact not_lt.1 (mt isOpposed_iff.2 hopposed)

theorem blended_sub (fixed across : ℝ) :
    blended fixed across flatness - fixed = (1 - flatness) * (reconciled fixed across - fixed) :=
  add_sub_cancel_left _ _

theorem exists_angle_sub_eq (fixed across : ℝ) :
    ∃ turns : ℤ, angle fixed across flatness - (across + turns * (2 * π)) =
      -(flatness * (reconciled fixed across - fixed)) := by
  obtain ⟨turns, hturns⟩ := exists_reconciled_eq fixed across
  refine ⟨turns, ?_⟩
  have hangle : angle fixed across flatness =
      blended fixed across flatness - turnedBy fixed across := rfl
  linear_combination hangle + blended_sub flatness fixed across + hturns

variable {flatness}

theorem abs_blended_sub_le (hfixed : fixed ∈ Set.Icc (-(π / 2)) (π / 2))
    (hacross : across ∈ Set.Ioc (-π) π) (hflatness : flatness ≤ 1) :
    |blended fixed across flatness - fixed| ≤ (1 - flatness) * (π / 2) := by
  rw [blended_sub, abs_mul, abs_of_nonneg (sub_nonneg.2 hflatness)]
  exact mul_le_mul_of_nonneg_left (abs_reconciled_sub_le hfixed hacross) (sub_nonneg.2 hflatness)

theorem abs_angle_sub_le (hfixed : fixed ∈ Set.Icc (-(π / 2)) (π / 2))
    (hacross : across ∈ Set.Ioc (-π) π) (hflatness : 0 ≤ flatness) :
    ∃ turns : ℤ, |angle fixed across flatness - (across + turns * (2 * π))| ≤
      flatness * (π / 2) := by
  obtain ⟨turns, hturns⟩ := exists_angle_sub_eq flatness fixed across
  refine ⟨turns, ?_⟩
  rw [hturns, abs_neg, abs_mul, abs_of_nonneg hflatness]
  exact mul_le_mul_of_nonneg_left (abs_reconciled_sub_le hfixed hacross) hflatness

end Tip

/-! ## Sides -/

namespace Point

/-- The vector a quarter turn further. -/
def quarterTurn {R : Type} [Scalar R] (p : Point R) : Point R :=
  ⟨-p.y, p.x⟩

theorem quarterTurn_smul (c : ℝ) (p : Point ℝ) : (c • p).quarterTurn = c • p.quarterTurn := by
  ext
  · exact (neg_mul p.y c).symm
  · rfl

theorem smul_dot (c : ℝ) (p q : Point ℝ) : (c • p).dot q = c * p.dot q := by
  simp only [dot, smul_x, smul_y]
  ring

theorem dot_smul (c : ℝ) (p q : Point ℝ) : p.dot (c • q) = c * p.dot q := by
  simp only [dot, smul_x, smul_y]
  ring

theorem dot_ofAngle (a : ℝ) (p : Point ℝ) : (ofAngle a).dot p = p.norm * cos (a - p.angle) := by
  have hnorm : p.norm = ‖(⟨p.x, p.y⟩ : ℂ)‖ := by
    rw [Complex.norm_def, Complex.normSq_mk]
    rfl
  have hx : p.norm * cos p.angle = p.x := hnorm ▸ Complex.norm_mul_cos_arg ⟨p.x, p.y⟩
  have hy : p.norm * sin p.angle = p.y := hnorm ▸ Complex.norm_mul_sin_arg ⟨p.x, p.y⟩
  calc cos a * p.x + sin a * p.y
      = p.norm * (cos a * cos p.angle + sin a * sin p.angle) := by rw [← hx, ← hy]; ring
    _ = p.norm * cos (a - p.angle) := by rw [cos_sub]

/-- A direction within a quarter turn of a vector, up to whole turns, does not point away from
it. -/
theorem dot_ofAngle_nonneg {a : ℝ} {p : Point ℝ} {turns : ℤ}
    (h : |a - (p.angle + turns * (2 * π))| ≤ π / 2) : 0 ≤ (ofAngle a).dot p := by
  have hcos : cos (a - p.angle) = cos (a - (p.angle + turns * (2 * π))) := by
    rw [← sub_sub, cos_sub_int_mul_two_pi]
  rw [dot_ofAngle, hcos]
  exact mul_nonneg (sqrt_nonneg _) (cos_nonneg_of_mem_Icc (abs_le.1 h))

theorem angle_mem (p : Point ℝ) : p.angle ∈ Set.Ioc (-π) π :=
  Complex.arg_mem_Ioc _

theorem angle_ofAngle {a : ℝ} (h : a ∈ Set.Ioc (-π) π) : (ofAngle a).angle = a := by
  have hunit : (⟨cos a, sin a⟩ : ℂ) = Complex.cos a + Complex.sin a * Complex.I := by
    apply Complex.ext <;> simp [← Complex.ofReal_cos, ← Complex.ofReal_sin]
  exact (congrArg Complex.arg hunit).trans (Complex.arg_cos_add_sin_mul_I h)

end Point

/-- The tip does not point to the right of the motion. -/
theorem Tip.direction_nonneg {fixed flatness : ℝ} (hfixed : fixed ∈ Set.Icc (-(π / 2)) (π / 2))
    (hflatness : flatness ∈ Set.Icc 0 1) (velocity : Point ℝ) :
    0 ≤ (direction fixed velocity flatness).dot velocity.quarterTurn := by
  obtain ⟨turns, hturns⟩ :=
    abs_angle_sub_le hfixed velocity.quarterTurn.angle_mem hflatness.1
  refine Point.dot_ofAngle_nonneg (hturns.trans ?_)
  exact mul_le_of_le_one_left (by positivity) hflatness.2

namespace Pen

theorem strokeWidth_nonneg {s : Settings ℝ} (h : 0 ≤ s.width) (speed : ℝ) :
    0 ≤ strokeWidth speed s := by
  rw [strokeWidth, Scalar.max_reals]
  exact le_max_of_le_right (mul_nonneg (by norm_num [leastWidth]) h)

/-- The edges are apart along the tip. -/
theorem leftEdge_sub_rightEdge (pen : Pen ℝ) (s : Settings ℝ) :
    pen.leftEdge s - pen.rightEdge s =
      (2 * scale pen.viewport * (edgeShare * strokeWidth pen.velocity.norm s)) • pen.tip := by
  ext
  · show _ + (_ + _ * _) * _ - (_ + (_ - _ * _) * _) = _ * _
    ring
  · show _ + (_ + _ * _) * _ - (_ + (_ - _ * _) * _) = _ * _
    ring

/-- No edge of a tip that does not point away from a vector is on the other side of it. -/
theorem edges_nonneg {pen : Pen ℝ} {s : Settings ℝ} {v : Point ℝ} (hwidth : 0 ≤ s.width)
    (htip : 0 ≤ pen.tip.dot v) : 0 ≤ (pen.leftEdge s - pen.rightEdge s).dot v := by
  have hshare : (0 : ℝ) ≤ edgeShare := by norm_num [edgeShare]
  have hoffset := mul_nonneg hshare (strokeWidth_nonneg hwidth pen.velocity.norm)
  rw [leftEdge_sub_rightEdge, Point.smul_dot]
  exact mul_nonneg (mul_nonneg (mul_nonneg two_pos.le (scale_pos _).le) hoffset) htip

end Pen

/-- The blend keeps within one share of a quarter turn of the fixed angle, and the tip within the
other share of the direction across, up to whole turns.  So the tip does not point to the right of
the motion, and the edges are not swapped. -/
theorem Tip.angle_halfCircle {fixed across flatness : ℝ}
    (hfixed : fixed ∈ Set.Icc (-(π / 2)) (π / 2)) (hacross : across ∈ Set.Ioc (-π) π)
    (hflatness : flatness ∈ Set.Icc 0 1) :
    |blended fixed across flatness - fixed| ≤ (1 - flatness) * (π / 2) ∧
      (∃ turns : ℤ, |angle fixed across flatness - (across + turns * (2 * π))| ≤
        flatness * (π / 2)) ∧
      ∀ velocity : Point ℝ, 0 ≤ (direction fixed velocity flatness).dot velocity.quarterTurn ∧
        ∀ (pen : Pen ℝ) (s : Settings ℝ), pen.tip = direction fixed velocity flatness →
          0 ≤ s.width → 0 ≤ (pen.leftEdge s - pen.rightEdge s).dot velocity.quarterTurn := by
  refine ⟨abs_blended_sub_le hfixed hacross hflatness.2,
    abs_angle_sub_le hfixed hacross hflatness.1, fun velocity => ?_⟩
  have hleft := direction_nonneg hfixed hflatness velocity
  refine ⟨hleft, fun pen s htip hwidth => Pen.edges_nonneg hwidth ?_⟩
  rw [htip]
  exact hleft

/-- A direction across that is turned, brought back by a whole turn, and turned back. -/
theorem Tip.angle_halfCircle_opposed :
    (π / 4 ∈ Set.Icc (-(π / 2)) (π / 2) ∧ π ∈ Set.Ioc (-π) π ∧ (1 / 2 : ℝ) ∈ Set.Icc 0 1) ∧
      |blended (π / 4) π (1 / 2) - π / 4| ≤ (1 - 1 / 2) * (π / 2) ∧
      (∃ turns : ℤ, |angle (π / 4) π (1 / 2) - (π + turns * (2 * π))| ≤ 1 / 2 * (π / 2)) ∧
      across (⟨0, 1⟩ : Point ℝ) = π ∧
      let pen : Pen ℝ := { Pen.unused with tip := direction (π / 4) ⟨0, 1⟩ (1 / 2) }
      let s : Settings ℝ := .withMode .calligraphic
      0 ≤ s.width ∧ 0 ≤ (pen.leftEdge s - pen.rightEdge s).dot (⟨0, 1⟩ : Point ℝ).quarterTurn := by
  have hpi := Real.pi_pos
  have hfixed : π / 4 ∈ Set.Icc (-(π / 2)) (π / 2) := by constructor <;> linarith
  have hturn : π ∈ Set.Ioc (-π) π := by constructor <;> linarith
  have hhalf : (1 / 2 : ℝ) ∈ Set.Icc 0 1 := by constructor <;> norm_num
  have hacross : across (⟨0, 1⟩ : Point ℝ) = π := by
    have hleft : (⟨0, 1⟩ : Point ℝ).quarterTurn = .ofAngle π :=
      Point.ext cos_pi.symm sin_pi.symm
    exact (congrArg Point.angle hleft).trans (Point.angle_ofAngle hturn)
  have hwidth : 0 ≤ (Settings.withMode .calligraphic : Settings ℝ).width := by
    norm_num [Settings.withMode, Quantity.standard]
  obtain ⟨hblended, hangle, hsides⟩ := angle_halfCircle hfixed hturn hhalf
  exact ⟨⟨hfixed, hturn, hhalf⟩, hblended, hangle, hacross, hwidth,
    (hsides ⟨0, 1⟩).2 _ _ rfl hwidth⟩

/-! ## Pulls -/

namespace Tip

variable {degrees : ℝ}

theorem radians_mem (h : degrees ∈ Set.Icc (-90) 90) :
    degrees / 180 * π ∈ Set.Icc (-(π / 2)) (π / 2) := by
  have hpi := Real.pi_pos
  constructor <;> nlinarith [h.1, h.2]

/-- The angle of the tip is the setting, in radians. -/
theorem fixedAngle_eq (h : degrees ∈ Set.Icc (-90) 90) :
    fixedAngle degrees = degrees / 180 * π := by
  have hpi := Real.pi_pos
  have hmem := radians_mem h
  have hradians : (degrees - 90.0) / 180.0 * π = degrees / 180 * π - π / 2 := by
    norm_num
    ring
  have hpoint : (⟨-sin ((degrees - 90.0) / 180.0 * π), cos ((degrees - 90.0) / 180.0 * π)⟩ :
      Point ℝ) = .ofAngle (degrees / 180 * π) := by
    rw [hradians, sin_sub_pi_div_two, neg_neg, cos_sub_pi_div_two]
    rfl
  refine (congrArg Point.angle hpoint).trans (Point.angle_ofAngle ⟨?_, ?_⟩)
  · linarith [hmem.1]
  · linarith [hmem.2]

theorem fixedAngle_mem (h : degrees ∈ Set.Icc (-90) 90) :
    fixedAngle degrees ∈ Set.Icc (-(π / 2)) (π / 2) := by
  rw [fixedAngle_eq h]
  exact radians_mem h

end Tip

namespace Pen

variable {pen : Pen ℝ} {pointer : Point ℝ} {viewport : Rect ℝ} {s : Settings ℝ}

/-- A pull that moves the pen sets the tip by a velocity, and the pen goes what friction leaves of
it. -/
theorem eq_of_pull {pulled : Pen ℝ} (h : pen.pull pointer viewport s = (true, pulled)) :
    ∃ velocity : Point ℝ,
      pulled.tip = Tip.direction (Tip.fixedAngle s.angle) velocity s.flatness ∧
        pulled.position - pulled.previous = (1 - physicalDrag s.drag) • velocity := by
  simp only [pull] at h
  split at h
  · cases h
  · split at h
    · cases h
    · cases h
      exact ⟨_, rfl, by ext <;> simp⟩

/-- With settings in their range, a pull that moves the pen leaves the left edge not to the right,
and the right edge not to the left, of the way the pen has gone. -/
theorem edges_of_pull {pulled : Pen ℝ} (hangle : s.angle ∈ Set.Icc (-90) 90)
    (hflatness : s.flatness ∈ Set.Icc 0 1) (hdrag : s.drag ∈ Set.Icc 0 1) (hwidth : 0 ≤ s.width)
    (hpull : pen.pull pointer viewport s = (true, pulled)) :
    0 ≤ (pulled.leftEdge s - pulled.rightEdge s).dot
      (pulled.position - pulled.previous).quarterTurn := by
  obtain ⟨velocity, htip, hway⟩ := eq_of_pull hpull
  have hkept : 0 ≤ 1 - physicalDrag s.drag := by
    have hhalf : physicalDrag s.drag = s.drag * s.drag / 2 := by
      norm_num [physicalDrag, Scalar.lerp]
      ring
    rw [hhalf]
    nlinarith [hdrag.1, hdrag.2]
  refine edges_nonneg hwidth ?_
  rw [hway, Point.quarterTurn_smul, Point.dot_smul, htip]
  exact mul_nonneg hkept (Tip.direction_nonneg (Tip.fixedAngle_mem hangle) hflatness velocity)

end Pen

end Freehand
