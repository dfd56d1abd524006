import Freehand.Capture
import Freehand.Proofs.Geometry.Span

/-!
# The shape of a stroke

Wherever the samples are and however they are fitted, all that a capture has settled is in one piece
each (`Capture.Shaped`).  So a finished stroke is empty, or it starts with a move and is closed
exactly if it is an outline (`Capture.Shaped.finish`).

* No law of the scalars is needed.  A segment that does not start where the curve before it ended is
  drawn from there all the same.
* Edges are joined behind the move that the left one starts with, and the outline is closed last.
-/

namespace Freehand

variable {R : Type}

/-- The path is that of a stroke: it starts with a move, and is closed exactly if the stroke is an
outline. -/
structure Path.IsStroke (mode : StrokeMode) (path : Path R) : Prop where
  start : ∃ p rest, path = .moveTo p :: rest
  closed : path.getLast?.any PathElement.isClose = true ↔ mode = .calligraphic

theorem Path.IsStroke.ne_nil {mode : StrokeMode} {path : Path R} (h : path.IsStroke mode) :
    path ≠ [] := by
  obtain ⟨p, rest, rfl⟩ := h.start
  exact List.cons_ne_nil _ rest

/-- Mapping its points keeps the elements of a path what they are. -/
theorem Path.IsStroke.transformed [Scalar R] {mode : StrokeMode} {path : Path R}
    (h : path.IsStroke mode) (m : Affine R) : (path.transformed m).IsStroke mode where
  start := by
    obtain ⟨p, rest, rfl⟩ := h.start
    exact ⟨m.apply p, rest.map (.transformed m), rfl⟩
  closed := by
    have hclose : ∀ el : PathElement R, (el.transformed m).isClose = el.isClose := by
      intro el
      cases el <;> rfl
    rw [← h.closed, Path.transformed, List.getLast?_map, Option.any_map]
    simp only [hclose]

/-! ## Curves in one piece -/

namespace Curve

/-- The curve is empty or one open subpath. -/
def Unbroken (c : Curve R) : Prop :=
  c = .empty ∨ ∃ p q, c.Spans p q

variable {c : Curve R} {p q : Point R}

theorem unbroken_empty : (empty : Curve R).Unbroken :=
  .inl rfl

theorem Spans.unbroken (h : c.Spans p q) : c.Unbroken :=
  .inr ⟨p, q, h⟩

/-- An open subpath is the path of a line. -/
theorem Spans.isStroke (h : c.Spans p q) : c.elements.IsStroke .line := by
  obtain ⟨path, hpath, hopen, -⟩ := h
  refine ⟨⟨p, path, hpath⟩, iff_of_false ?_ (by decide)⟩
  intro hclosed
  obtain ⟨el, hel, hclose⟩ := (Option.any_eq_true _ _).1 hclosed
  have hmem : el ∈ c.elements := List.mem_of_getLast? hel
  rw [hpath] at hmem
  rcases List.mem_cons.1 hmem with rfl | hmem
  · cases hclose
  · rw [hopen el hmem] at hclose
    cases hclose

namespace Unbroken

theorem spans (h : c.Unbroken) (hne : c.isEmpty = false) : ∃ p q, c.Spans p q := by
  rcases h with rfl | hspans
  · cases hne
  · exact hspans

/-- Lines go on from where a curve ends, or start a new one. -/
theorem extendLines (h : c.Unbroken) (points : List (Point R)) :
    (c.extendLines points).Unbroken := by
  rcases h with rfl | ⟨p, q, hspans⟩
  · cases points with
    | nil => exact unbroken_empty
    | cons p points => exact (spans_polyline p points).unbroken
  · exact (hspans.extendLines points).unbroken

/-- So does a segment. -/
theorem pushSegment (h : c.Unbroken) (s : Segment R) : (c.pushSegment s).Unbroken := by
  have hopen : ∀ el ∈ [s.element], el.isClose = false := by
    cases s <;> exact List.forall_mem_singleton.2 rfl
  rcases h with rfl | ⟨p, q, hspans⟩
  · exact ((spans_moveTo s.start).append hopen rfl).unbroken
  · rw [Curve.pushSegment, hspans.isEmpty]
    exact (hspans.append hopen rfl).unbroken

theorem pushCubics (h : c.Unbroken) (segments : List (Cubic R)) :
    (c.pushCubics segments).Unbroken :=
  segments.foldlRecOn (motive := Unbroken) _ h fun _ hc s _ => hc.pushSegment (.cubic s)

end Unbroken

/-- A curve that another one is joined to goes on. -/
theorem append_elements (hne : c.isEmpty = false) (other : Curve R) (connect : Bool) :
    ∃ more, (c.append other connect).elements = c.elements ++ more := by
  rw [append]
  split
  next => exact ⟨[], (List.append_nil _).symm⟩
  next first rest _ =>
    rw [hne, if_neg Bool.false_ne_true]
    split <;> exact ⟨_, rfl⟩

/-- A curve that is closed at the end is the path of an outline. -/
theorem Spans.isStroke_close (h : c.Spans p q) (other : Curve R) (connect : Bool) :
    (c.append other connect).close.elements.IsStroke .calligraphic := by
  obtain ⟨more, hmore⟩ := append_elements h.isEmpty other connect
  obtain ⟨path, hpath, -⟩ := h
  rw [hpath] at hmore
  have hclose : (c.append other connect).close.elements =
      .moveTo p :: (path ++ more ++ [.close]) := by
    have hne : (c.append other connect).isEmpty = false := by
      rw [Curve.isEmpty, hmore]
      rfl
    rw [close, hne, if_neg Bool.false_ne_true]
    exact congrArg (· ++ [.close]) hmore
  rw [hclose]
  refine ⟨⟨p, _, rfl⟩, iff_of_true ?_ rfl⟩
  rw [← List.cons_append, List.getLast?_concat]
  rfl

end Curve

/-! ## Lines -/

namespace LineCapture

/-- The current segment and the settled path are in one piece each. -/
structure Shaped (c : LineCapture R) : Prop where
  current : c.current.Unbroken
  accumulated : c.accumulated.Unbroken

variable {c : LineCapture R}

theorem shaped_empty : (empty : LineCapture R).Shaped :=
  ⟨Curve.unbroken_empty, Curve.unbroken_empty⟩

/-- What is fitted to samples is one segment or nothing. -/
theorem unbroken_fitted [Scalar R] (points : List (Point R)) (tolerance : R) :
    (fitted points tolerance).Unbroken := by
  rw [fitted]
  split
  · exact Curve.unbroken_empty.pushCubics _
  · exact Curve.unbroken_empty

namespace Shaped

theorem push (h : c.Shaped) (p : Point R) : (c.push p).Shaped :=
  ⟨h.current, h.accumulated⟩

/-- The settled pieces and the current one are joined without a second move. -/
theorem joined (h : c.Shaped) : c.joined.Unbroken := by
  rw [LineCapture.joined]
  split
  · exact h.accumulated
  · split
    · exact h.current
    · split
      next s _ => exact h.accumulated.pushSegment s
      next => exact h.accumulated

variable [Scalar R]

omit [Scalar R] in
theorem settleSamples (h : c.Shaped) : c.settleSamples.Shaped :=
  ⟨h.current, h.accumulated.extendLines _⟩

theorem settleCurrent (h : c.Shaped) (tolerance : R) (stop newest : Point R) :
    (c.settleCurrent tolerance stop newest).Shaped :=
  ⟨unbroken_fitted _ tolerance, h.joined⟩

theorem split (h : c.Shaped) (tolerance : R) : (c.split tolerance).Shaped := by
  rw [LineCapture.split]
  split
  · exact h
  · exact h.settleCurrent tolerance _ _
  · exact h.settleSamples

/-- A fit keeps to one piece, whether it succeeds or has to split. -/
theorem fit (h : c.Shaped) (tolerance : R) : (c.fit tolerance).Shaped := by
  rw [LineCapture.fit]
  split
  · exact h.split tolerance
  · split
    · exact ⟨Curve.unbroken_empty.pushCubics _, h.accumulated⟩
    · exact h
    · exact h.split tolerance

end Shaped

end LineCapture

/-! ## Outlines -/

namespace OutlineCapture

/-- The settled edges are in one piece each. -/
structure Shaped (c : OutlineCapture R) : Prop where
  leftEdge : c.leftEdge.Unbroken
  rightEdge : c.rightEdge.Unbroken

variable {c : OutlineCapture R}

theorem shaped_empty : (empty : OutlineCapture R).Shaped :=
  ⟨Curve.unbroken_empty, Curve.unbroken_empty⟩

namespace Shaped

theorem push (h : c.Shaped) (l r : Point R) : (c.push l r).Shaped := by
  rw [OutlineCapture.push]
  split
  · exact h
  · exact ⟨h.leftEdge, h.rightEdge⟩

theorem started (h : c.Shaped) : c.started.Shaped := by
  rw [OutlineCapture.started]
  split
  · exact ⟨Curve.unbroken_empty.extendLines _, Curve.unbroken_empty.extendLines _⟩
  · exact h

theorem keepSamples (h : c.Shaped) : c.keepSamples.Shaped :=
  ⟨h.leftEdge.extendLines _, h.rightEdge.extendLines _⟩

variable [Scalar R]

theorem keepFitted (h : c.Shaped) (ending : Bool) (b1 b2 : List (Cubic R)) :
    (c.keepFitted ending b1 b2).Shaped :=
  ⟨h.leftEdge.pushCubics b1, h.rightEdge.pushCubics b2⟩

/-- What is settled of the edges goes on from where they ended. -/
theorem settle (h : c.Shaped) (tolerance : R) (ending : Bool) :
    (c.settle tolerance ending).Shaped := by
  -- only the edges count, and only keeping the samples or the fitted segments changes them
  have hkept : ∀ d : OutlineCapture R, d.Shaped →
      (if ending then d else { d with settled := d.settled ++ [d.current] }).restarted.Shaped := by
    intro d hd
    split <;> exact ⟨hd.leftEdge, hd.rightEdge⟩
  refine hkept _ ?_
  split
  · exact h.started.keepFitted ending _ _
  · exact h.started.keepSamples

theorem fitWindow (h : c.Shaped) (tolerance : R) (ending : Bool) :
    (c.fitWindow tolerance ending).Shaped := by
  rw [OutlineCapture.fitWindow]
  split
  · exact h
  · split
    · exact h.settle tolerance ending
    · exact ⟨h.leftEdge, h.rightEdge⟩

omit [Scalar R] in
/-- The outline leads along one edge and back along the other one, and is closed. -/
theorem outline (h : c.Shaped) :
    c.outline = .empty ∨ c.outline.elements.IsStroke .calligraphic := by
  rw [OutlineCapture.outline]
  split
  next hlong =>
    have hne : c.leftEdge.isEmpty = false := by simp_all
    obtain ⟨p, q, hspans⟩ := h.leftEdge.spans hne
    exact .inr (hspans.isStroke_close c.rightEdge.reversed true)
  next => exact .inl rfl

end Shaped

end OutlineCapture

/-! ## Captures -/

namespace Capture

/-- What a capture has settled is in one piece each. -/
def Shaped : Capture R → Prop
  | line c => c.Shaped
  | outline c => c.Shaped

theorem shaped_ofMode (mode : StrokeMode) : (ofMode mode : Capture R).Shaped := by
  cases mode with
  | line => exact LineCapture.shaped_empty
  | calligraphic => exact OutlineCapture.shaped_empty

variable [Scalar R] {c : Capture R}

theorem mode_sample (c : Capture R) (pen : Pen R) (s : Settings R) (tolerance : R) :
    ((c.addSample pen s).fit tolerance).mode = c.mode := by
  cases c <;> rfl

namespace Shaped

/-- A sample keeps the shape of what is captured, in every mode. -/
theorem sample (h : c.Shaped) (pen : Pen R) (s : Settings R) (tolerance : R) :
    ((c.addSample pen s).fit tolerance).Shaped := by
  cases c with
  | line c => exact (LineCapture.Shaped.push h pen.viewPoint).fit tolerance
  | outline c =>
    have hpush : (c.push (pen.leftEdge s) (pen.rightEdge s)).Shaped :=
      OutlineCapture.Shaped.push h _ _
    exact hpush.fitWindow tolerance false

/-- A finished stroke is empty, or it has the path of a stroke of its mode. -/
theorem finish (h : c.Shaped) (tolerance : R) :
    c.finish tolerance = .empty ∨ (c.finish tolerance).elements.IsStroke c.mode := by
  cases c with
  | line c =>
    have hline : c.Shaped := h
    rcases (hline.fit tolerance).joined with hempty | ⟨p, q, hspans⟩
    · exact .inl hempty
    · exact .inr hspans.isStroke
  | outline c => exact (OutlineCapture.Shaped.fitWindow h tolerance true).outline

end Shaped

end Capture

end Freehand
