import Freehand.Proofs.Capture.Outline
import Freehand.Proofs.Fit.Guarded
import Freehand.Proofs.Scalar.Integers

/-!
# Fits that may use more segments

How many segments a fit may use decides only whether a run is refused.  What a fit answers it also
answers when it may use more (`Fit.pieces_mono`): the number is read only where a run would have to
be split and may not be, and where it may, both parts are left at least one segment and no fewer
than before.

So a window that one segment fits is fitted by this segment in both kinds of captures
(`Fit.curves_allowed_more`).
-/

namespace Freehand

variable {R : Type} [Scalar R]

namespace Fit

/-- A fit that may use more segments gives the same answer. -/
theorem pieces_mono {tolerance : R} {ends : Ends R} {maxSegments maxSegments' : Nat}
    {data : List (Point R)} {segments : List (Cubic R)}
    (hpieces : pieces tolerance ends maxSegments data = .ok segments) (hmax : 1 ≤ maxSegments)
    (hle : maxSegments ≤ maxSegments') :
    pieces tolerance ends maxSegments' data = .ok segments := by
  fun_induction pieces tolerance ends maxSegments data generalizing maxSegments' segments with
  | case1 ends maxSegments data hshort =>
    rw [pieces, dif_pos hshort]
    exact hpieces
  | case2 ends maxSegments data hshort hnone =>
    rw [pieces, dif_neg hshort, hnone]
    exact hpieces
  | case3 ends maxSegments data hshort c hsingle hworst =>
    rw [pieces, dif_neg hshort, hsingle]
    simp only
    rw [if_pos hworst]
    exact hpieces
  | case4 => cases hpieces
  | case5 => cases hpieces
  | case6 => cases hpieces
  | case7 ends maxSegments data hshort c hsingle hworst hmax' hw joint front hfront back hback
      ihfront =>
    rename_i ihback
    -- the first part leaves a segment for the second one, which is left more where there are more
    have hlength : front.length ≤ maxSegments - 1 := length_pieces_le hfront (by omega)
    have hfront' : pieces tolerance ⟨ends.start, joint⟩ (maxSegments' - 1)
        (data.take ((c.worst data).2 + 1)) = .ok front :=
      ihfront hfront (by omega) (by omega)
    have hback' : pieces tolerance ⟨joint.map (- ·), ends.stop⟩ (maxSegments' - front.length)
        (data.drop (c.worst data).2) = .ok back :=
      ihback hback (by omega) (by omega)
    rw [pieces, dif_neg hshort, hsingle]
    simp only
    rw [if_neg hworst, if_neg (by omega), hfront']
    simp only
    rw [hback']
    exact hpieces

theorem curves_mono {points : List (Point R)} {tolerance : R} {maxSegments maxSegments' : Nat}
    {segments : List (Cubic R)} (hcurves : curves points tolerance maxSegments = .ok segments)
    (hmax : 1 ≤ maxSegments) (hle : maxSegments ≤ maxSegments') :
    curves points tolerance maxSegments' = .ok segments := by
  rw [curves, if_neg (by omega)] at hcurves ⊢
  exact pieces_mono hcurves hmax hle

end Fit

/-! ## Windows that one segment fits -/

/-- The current segment of a line is the one that fits its window. -/
theorem LineCapture.fit_current {c : LineCapture R} {tolerance : R} {s : Cubic R}
    (hroom : c.window.isFull = false)
    (hcurve : Fit.curve c.window.points tolerance = .ok (some s)) :
    (c.fit tolerance).current = .ofCubics [s] := by
  rw [fit, hroom, if_neg Bool.false_ne_true, hcurve]

namespace OutlineCapture

variable {c : OutlineCapture R} {tolerance : R} {b1 b2 : List (Cubic R)}

/-- Edges that are fitted go on with the segments for their windows. -/
theorem settle_edges (hleft : Fit.curves c.left.points tolerance maxSegments = .ok b1)
    (hright : Fit.curves c.right.points tolerance maxSegments = .ok b2) (ending : Bool) :
    (c.settle tolerance ending).leftEdge = c.started.leftEdge.pushCubics b1 ∧
      (c.settle tolerance ending).rightEdge = c.started.rightEdge.pushCubics b2 := by
  rw [← started_left c] at hleft
  rw [← started_right c] at hright
  rw [settle]
  simp only [hleft, hright]
  split <;> exact ⟨rfl, rfl⟩

end OutlineCapture

namespace Fit

/-- What a fit answers it answers as well if it may use more segments, so it fails with fewer
wherever it fails with more.  In particular, the one segment that fits some samples is what every
fit of them answers: a line that has them in its window shows this segment, and an edge of an
outline goes on with it, if the other edge can be fitted. -/
theorem curves_allowed_more (points : List (Point R)) (tolerance : R)
    {maxSegments maxSegments' : Nat} (hmax : 1 ≤ maxSegments) (hle : maxSegments ≤ maxSegments') :
    (∀ segments, curves points tolerance maxSegments = .ok segments →
      curves points tolerance maxSegments' = .ok segments) ∧
    ((∃ e, curves points tolerance maxSegments' = .error e) →
      ∃ e, curves points tolerance maxSegments = .error e) ∧
    ∀ s, curve points tolerance = .ok (some s) →
      curves points tolerance maxSegments' = .ok [s] ∧
      (∀ c : LineCapture R, c.window.points = points → c.window.isFull = false →
        (c.fit tolerance).current = .ofCubics [s]) ∧
      ∀ (c : OutlineCapture R) (ending : Bool) (other : List (Cubic R)),
        (c.left.points = points →
          curves c.right.points tolerance OutlineCapture.maxSegments = .ok other →
          (c.settle tolerance ending).leftEdge = c.started.leftEdge.pushSegment (.cubic s)) ∧
        (c.right.points = points →
          curves c.left.points tolerance OutlineCapture.maxSegments = .ok other →
          (c.settle tolerance ending).rightEdge = c.started.rightEdge.pushSegment (.cubic s)) := by
  refine ⟨fun segments hcurves => curves_mono hcurves hmax hle, ?_, fun s hcurve => ?_⟩
  · rintro ⟨e', hrefused⟩
    cases hcurves : curves points tolerance maxSegments with
    | error e => exact ⟨e, rfl⟩
    | ok segments =>
      rw [curves_mono hcurves hmax hle] at hrefused
      cases hrefused
  · have hone : curves points tolerance 1 = .ok [s] := curves_of_curve hcurve
    have hedge : curves points tolerance OutlineCapture.maxSegments = .ok [s] :=
      curves_mono hone (Nat.le_refl 1) (by decide)
    refine ⟨curves_mono hone (Nat.le_refl 1) (by omega), ?_, fun c ending other => ⟨?_, ?_⟩⟩
    · rintro c rfl hroom
      exact LineCapture.fit_current hroom hcurve
    · rintro rfl hother
      exact (OutlineCapture.settle_edges hedge hother ending).1
    · rintro rfl hother
      exact (OutlineCapture.settle_edges hother hedge ending).2

/-- A corner that one segment does not fit is fitted by the same two however many may be used. -/
theorem curves_allowed_more_corner :
    let points : List (Point Int) := [⟨0, 0⟩, ⟨10, 0⟩, ⟨10, 10⟩]
    (curves points 0 1).toOption = none ∧
      ∃ segments, curves points 0 2 = .ok segments ∧ segments.length = 2 ∧
        curves points 0 8 = .ok segments := by
  intro points
  have hlength : (curves points 0 2).toOption.map List.length = some 2 := by decide +kernel
  obtain ⟨hmore, -, -⟩ := curves_allowed_more points 0 (by decide : 1 ≤ 2) (by decide : 2 ≤ 8)
  cases hcurves : curves points 0 2 with
  | error e =>
    rw [hcurves] at hlength
    cases hlength
  | ok segments =>
    rw [hcurves] at hlength
    exact ⟨by decide +kernel, segments, rfl, Option.some.inj hlength, hmore segments hcurves⟩

end Fit

end Freehand
