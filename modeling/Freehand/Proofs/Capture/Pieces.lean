import Freehand.Capture
import Freehand.Proofs.Capture.Outline

/-!
# What a capture shows

A capture shows a preview and the pieces that it settled.  With every sample the pieces stay, and
those that come are previews, the one before the sample or the one after it
(`Capture.Sound.sample`).  The preview and the finished stroke cover all of them
(`Capture.Sound.finish_covers`).
-/

namespace Freehand

namespace Capture

variable {R : Type} [Scalar R]

/-- What holds of a capture between two samples. -/
def Sound : Capture R → Prop
  | line c => c.Sound
  | outline c => c.Shown

/-- The pieces of `c` are kept in `c'`, and those that are new are previews. -/
structure Succeeds (c c' : Capture R) : Prop where
  subset : c.settled ⊆ c'.settled
  settled : ∀ piece ∈ c'.settled, piece ∈ c.settled ∨ piece = c.preview ∨ piece = c'.preview ∨
    c.preview = .empty ∧ c'.preview = .empty

theorem sound_ofMode (mode : StrokeMode) : (ofMode mode : Capture R).Sound := by
  cases mode with
  | line => exact LineCapture.sound_empty
  | calligraphic => exact OutlineCapture.shown_empty

namespace Sound

variable {c : Capture R} (hlaw : Scalar.Measured R) (h : c.Sound)
include hlaw h

/-- One more sample of the pen. -/
theorem sample (pen : Pen R) (s : Settings R) (tolerance : R) :
    ((c.addSample pen s).fit tolerance).Sound ∧
      c.Succeeds ((c.addSample pen s).fit tolerance) := by
  cases c with
  | line c =>
    have hpush : (c.push pen.viewPoint).Sound := LineCapture.Sound.push h _
    refine ⟨hpush.fit hlaw tolerance, ⟨?_, fun piece hpiece => ?_⟩⟩
    · exact LineCapture.settled_subset_fit (c.push pen.viewPoint) tolerance
    · exact (hpush.mem_fit_settled tolerance hpiece).imp_right (Or.imp_right .inr)
  | outline c =>
    obtain ⟨hpush, hne, hroom⟩ := OutlineCapture.Shown.push h (pen.leftEdge s) (pen.rightEdge s)
    obtain ⟨hshown, pieces, hsettled, hpieces⟩ := hpush.fit hlaw hne hroom tolerance
    have hmem {piece : Curve R} :
        piece ∈ (((outline c).addSample pen s).fit tolerance).settled ↔
          piece ∈ c.settled ∨ piece ∈ pieces := by
      rw [← List.mem_append, ← OutlineCapture.push_settled c (pen.leftEdge s) (pen.rightEdge s),
        ← hsettled]
      rfl
    refine ⟨hshown, ⟨?_, fun piece hpiece => ?_⟩⟩
    · exact fun piece hpiece => hmem.2 (.inl hpiece)
    · rcases hmem.1 hpiece with hpiece | hpiece
      · exact .inl hpiece
      · exact .inr (.inr (.inl (hpieces piece hpiece)))

/-- The preview and the finished stroke cover every piece that was settled before. -/
theorem finish_covers (tolerance : R) {piece : Curve R} (hpiece : piece ∈ c.settled) :
    Rect.Covers (Rect.join c.preview.bounds (c.finish tolerance).bounds) piece.bounds := by
  cases c with
  | line c =>
    exact (Rect.Covers.join_right hlaw.toOrdered _ _).trans hlaw.toOrdered
      (LineCapture.Sound.finish_covers hlaw h tolerance hpiece)
  | outline c => exact OutlineCapture.Shown.finish_covers hlaw h tolerance hpiece

end Sound

end Capture

end Freehand
