import Freehand.Pen
import Freehand.Proofs.Scalar.Reals

/-!
# The pen under a zoom

A zoom enlarges the desktop by a factor and moves it.  In exact arithmetic a point has the same
position in a viewport before and after, if the point and the viewport are zoomed alike
(`Zoom.normalize`).  The pen sees of the pointer nothing but that position, so it replies the same
and is in the same state but for the viewport it keeps (`Zoom.perform`), however often the viewport
changes on the way.  Where it is on the desktop is zoomed like everything else (`Zoom.viewPoint`).

A viewport without extent has no unit of its own.  The pen counts it as one, which a zoom would
change, so the viewports are assumed to have an extent.
-/

namespace Freehand

/-! ## Zooms -/

/-- A similarity of the desktop that neither turns nor flips it. -/
structure Zoom where
  /-- How many times lengths grow. -/
  factor : ℝ
  /-- Where the origin goes. -/
  offset : Point ℝ
  /-- No length shrinks to nothing. -/
  factor_pos : 0 < factor

/-- The larger extent of a rectangle. -/
noncomputable def Rect.extent (r : Rect ℝ) : ℝ :=
  max r.width r.height

namespace Zoom

variable (z : Zoom)

/-- Where a point goes. -/
noncomputable def point (p : Point ℝ) : Point ℝ :=
  ⟨z.factor * p.x + z.offset.x, z.factor * p.y + z.offset.y⟩

/-- Where a rectangle goes. -/
noncomputable def rect (r : Rect ℝ) : Rect ℝ :=
  ⟨z.factor * r.x0 + z.offset.x, z.factor * r.y0 + z.offset.y,
    z.factor * r.x1 + z.offset.x, z.factor * r.y1 + z.offset.y⟩

/-- The extent of a rectangle grows like all lengths. -/
theorem extent_rect (r : Rect ℝ) : (z.rect r).extent = z.factor * r.extent := by
  have hwidth : (z.rect r).width = z.factor * r.width := by
    simp only [rect, Rect.width]
    ring
  have hheight : (z.rect r).height = z.factor * r.height := by
    simp only [rect, Rect.height]
    ring
  rw [Rect.extent, hwidth, hheight, Rect.extent, mul_max_of_nonneg _ _ z.factor_pos.le]

end Zoom

namespace Pen

theorem scale_pos (viewport : Rect ℝ) : 0 < scale viewport := by
  rw [scale]
  split
  next h => exact h.1
  next => exact one_pos

theorem scale_eq {viewport : Rect ℝ} (h : 0 < viewport.extent) :
    scale viewport = viewport.extent := by
  rw [scale, Scalar.max_reals]
  exact if_pos ⟨h, rfl⟩

end Pen

namespace Zoom

variable (z : Zoom) {viewport : Rect ℝ}

/-- A viewport with an extent has a unit that grows with it. -/
theorem scale_rect (h : 0 < viewport.extent) :
    Pen.scale (z.rect viewport) = z.factor * Pen.scale viewport := by
  have hzoomed : 0 < (z.rect viewport).extent := by
    rw [extent_rect]
    exact mul_pos z.factor_pos h
  rw [Pen.scale_eq hzoomed, Pen.scale_eq h, extent_rect]

/-- A point has the same position in the viewport when both are zoomed. -/
theorem normalize (h : 0 < viewport.extent) (p : Point ℝ) :
    Pen.normalize (z.rect viewport) (z.point p) = Pen.normalize viewport p := by
  have hfactor : z.factor ≠ 0 := z.factor_pos.ne'
  have hscale : Pen.scale viewport ≠ 0 := (Pen.scale_pos viewport).ne'
  rw [Pen.normalize, Pen.normalize, scale_rect z h]
  ext
  · show (z.factor * p.x + z.offset.x - (z.factor * viewport.x0 + z.offset.x)) * _ =
      (p.x - viewport.x0) * _
    field_simp
    ring
  · show (z.factor * p.y + z.offset.y - (z.factor * viewport.y0 + z.offset.y)) * _ =
      (p.y - viewport.y0) * _
    field_simp
    ring

/-- A position in a viewport is on the desktop where the zoom takes it. -/
theorem denormalize (h : 0 < viewport.extent) (p : Point ℝ) :
    Pen.denormalize (z.rect viewport) p = z.point (Pen.denormalize viewport p) := by
  rw [Pen.denormalize, Pen.denormalize, scale_rect z h]
  ext
  · show z.factor * viewport.x0 + z.offset.x + p.x * (z.factor * _) =
      z.factor * (viewport.x0 + p.x * _) + z.offset.x
    ring
  · show z.factor * viewport.y0 + z.offset.y + p.y * (z.factor * _) =
      z.factor * (viewport.y0 + p.y * _) + z.offset.y
    ring

/-- A pen whose viewport is zoomed. -/
noncomputable def pen (p : Pen ℝ) : Pen ℝ :=
  { p with viewport := z.rect p.viewport }

/-- A pen and the point where it is on the desktop go to the same place. -/
theorem viewPoint {p : Pen ℝ} (h : 0 < p.viewport.extent) :
    (z.pen p).viewPoint = z.point p.viewPoint :=
  z.denormalize h p.position

/-- A pull is the same for the zoomed pointer in the zoomed viewport. -/
theorem pull (p : Pen ℝ) (pointer : Point ℝ) (h : 0 < viewport.extent) (s : Settings ℝ) :
    p.pull (z.point pointer) (z.rect viewport) s =
      ((p.pull pointer viewport s).1, z.pen (p.pull pointer viewport s).2) := by
  simp only [Pen.pull, normalize z h]
  split
  · rfl
  · split <;> rfl

theorem atRest (pointer : Point ℝ) (h : 0 < viewport.extent) :
    Pen.atRest (z.point pointer) (z.rect viewport) = z.pen (Pen.atRest pointer viewport) := by
  simp only [Pen.atRest, normalize z h]
  rfl

end Zoom

/-! ## Runs -/

namespace Zoom

variable (z : Zoom)

/-- A call whose pointer and viewport are zoomed. -/
noncomputable def call : Pen.Call ℝ → Pen.Call ℝ
  | .reset pointer viewport => .reset (z.point pointer) (z.rect viewport)
  | .pull pointer viewport s => .pull (z.point pointer) (z.rect viewport) s

/-- A zoomed call replies the same and leaves the same pen but for its viewport.  Which viewport the
pen had before does not matter. -/
theorem perform (p : Pen ℝ) (before : Rect ℝ) {call : Pen.Call ℝ} (h : 0 < call.viewport.extent) :
    Pen.perform { p with viewport := before } (z.call call) =
      ((p.perform call).1, z.pen (p.perform call).2) := by
  cases call with
  | reset pointer viewport => exact congrArg (Prod.mk none) (z.atRest pointer h)
  | pull pointer viewport s =>
    exact congrArg (fun r : Bool × Pen ℝ => (some r.1, r.2)) (z.pull p pointer h s)

/-- So is a whole course, whatever viewport the pen had before. -/
theorem course (p : Pen ℝ) (before : Rect ℝ) {calls : List (Pen.Call ℝ)}
    (h : ∀ call ∈ calls, 0 < call.viewport.extent) :
    Pen.course { p with viewport := before } (calls.map z.call) =
      (p.course calls).map fun r => (r.1, z.pen r.2) := by
  induction calls generalizing p before with
  | nil => rfl
  | cons call calls ih =>
    obtain ⟨hcall, hcalls⟩ := List.forall_mem_cons.1 h
    rw [List.map_cons, Pen.course, z.perform p before hcall, Pen.course, List.map_cons]
    exact congrArg _ (ih _ _ hcalls)

end Zoom

theorem Pen.viewport_perform (p : Pen ℝ) (call : Call ℝ) :
    (p.perform call).2.viewport = call.viewport := by
  cases call with
  | reset pointer viewport => rfl
  | pull pointer viewport s =>
    simp only [perform, pull]
    split
    · rfl
    · split <;> rfl

theorem Pen.exists_of_mem_course {p : Pen ℝ} {calls : List (Call ℝ)} {r : Option Bool × Pen ℝ}
    (hr : r ∈ p.course calls) : ∃ call ∈ calls, r.2.viewport = call.viewport := by
  induction calls generalizing p with
  | nil => cases hr
  | cons call calls ih =>
    rcases List.mem_cons.1 hr with rfl | hr
    · exact ⟨call, .head _, p.viewport_perform call⟩
    · obtain ⟨call', hmem, heq⟩ := ih hr
      exact ⟨call', .tail _ hmem, heq⟩

/-- Zooming the pointer and the viewports of all calls changes no reply, and nothing about the pen
after a call but its viewport.  The place of the pen on the desktop is zoomed with them. -/
theorem Pen.course_zoomed (z : Zoom) (p : Pen ℝ) {calls : List (Call ℝ)}
    (h : ∀ call ∈ calls, 0 < call.viewport.extent) :
    List.Forall₂ (fun r r' => r'.1 = r.1 ∧ r'.2.position = r.2.position ∧
        r'.2.previous = r.2.previous ∧ r'.2.velocity = r.2.velocity ∧
        r'.2.acceleration = r.2.acceleration ∧ r'.2.tip = r.2.tip ∧
        r'.2.viewPoint = z.point r.2.viewPoint)
      (p.course calls) (p.course (calls.map z.call)) := by
  rw [show p.course (calls.map z.call) = _ from z.course p p.viewport h, List.forall₂_map_right_iff,
    List.forall₂_same]
  intro r hr
  obtain ⟨call, hmem, hviewport⟩ := exists_of_mem_course hr
  refine ⟨rfl, rfl, rfl, rfl, rfl, rfl, z.viewPoint ?_⟩
  rw [hviewport]
  exact h call hmem

/-! ## Half the size -/

/-- A pen that is put down and pulled across two windows. -/
noncomputable def Pen.Call.sweep : List (Call ℝ) :=
  [.reset ⟨0, 0⟩ ⟨0, 0, 8, 6⟩, .pull ⟨4, 0⟩ ⟨0, 0, 8, 6⟩ (.withMode .line),
    .pull ⟨4, 2⟩ ⟨1, 1, 3, 9⟩ (.withMode .line)]

/-- Half the size, and three to the right. -/
noncomputable def Zoom.halved : Zoom :=
  ⟨2⁻¹, ⟨3, 0⟩, by norm_num⟩

/-- A pen is put down and pulled in a viewport, and once more in another one. -/
theorem Pen.course_zoomed_sweep :
    (∀ call ∈ Call.sweep, 0 < call.viewport.extent) ∧
      List.Forall₂ (fun r r' => r'.1 = r.1 ∧ r'.2.viewPoint = Zoom.halved.point r.2.viewPoint)
        (unused.course Call.sweep) (unused.course (Call.sweep.map Zoom.halved.call)) := by
  have hextent : ∀ call ∈ Call.sweep, 0 < call.viewport.extent := by
    simp [Call.sweep, Call.viewport, Rect.extent, Rect.width, Rect.height]
  refine ⟨hextent, (course_zoomed Zoom.halved unused hextent).imp fun r r' hr => ?_⟩
  exact ⟨hr.1, hr.2.2.2.2.2.2⟩

end Freehand
