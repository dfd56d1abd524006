import Freehand.Capture
import Freehand.Proofs.Geometry.Trail

/-!
# The settled pieces tile a line

The accumulated path of a line capture is its settled pieces glued together, in whatever order
samples and fits come (`LineCapture.Tiled`).  No law of the scalars is needed and no sample is ruled
out: the first piece is taken as it is, and of every other one what follows the move it starts with,
whether the piece is a segment or lines through the samples.
-/

namespace Freehand

variable {R : Type}

namespace Curve

theorem polyline_cons (p : Point R) (points : List (Point R)) :
    polyline (p :: points) = ⟨.moveTo p :: points.map .lineTo⟩ :=
  rfl

/-- Glued curves have elements exactly if there are any curves, where none of these is empty. -/
theorem isEmpty_glue {cs : List (Curve R)} (h : ∀ c ∈ cs, c.isEmpty = false) :
    (glue cs).isEmpty = cs.isEmpty := by
  cases cs with
  | nil => rfl
  | cons c cs =>
    obtain ⟨el, path, hpath⟩ := List.exists_cons_of_ne_nil
      (List.isEmpty_eq_false_iff.1 (h c (.head _)))
    rw [glue, hpath]
    rfl

end Curve

theorem Window.exists_of_last? {w : Window R} {newest : Point R} (h : w.last? = some newest) :
    ∃ p rest, w.points = p :: rest :=
  List.exists_cons_of_ne_nil (List.ne_nil_of_mem (List.mem_of_getLast? h))

namespace LineCapture

/-- The accumulated path is the settled pieces glued together, each of which starts with a move.
There is one current segment or none. -/
structure Tiled (c : LineCapture R) : Prop where
  accumulated : c.accumulated.elements = Curve.glue c.settled
  settled : ∀ piece ∈ c.settled, ∃ p path, piece.elements = .moveTo p :: path
  current : c.current = .empty ∨ ∃ s, c.current = .ofCubics [s]

theorem tiled_empty : (empty : LineCapture R).Tiled :=
  ⟨rfl, List.forall_mem_nil _, .inl rfl⟩

theorem fitted_single [Scalar R] (points : List (Point R)) (tolerance : R) :
    fitted points tolerance = .empty ∨ ∃ s, fitted points tolerance = .ofCubics [s] := by
  rw [fitted]
  split
  next s _ => exact .inr ⟨s, rfl⟩
  next => exact .inl rfl

namespace Tiled

variable {c : LineCapture R}

theorem push (h : c.Tiled) (p : Point R) : (c.push p).Tiled :=
  ⟨h.accumulated, h.settled, h.current⟩

/-- The settled path is empty if nothing has been settled. -/
theorem accumulated_isEmpty (h : c.Tiled) : c.accumulated.isEmpty = c.settled.isEmpty := by
  rw [Curve.isEmpty, h.accumulated]
  refine Curve.isEmpty_glue fun piece hpiece => ?_
  obtain ⟨p, path, hpath⟩ := h.settled piece hpiece
  exact Curve.isEmpty_of_elements hpath

/-- The current segment is glued to the settled path. -/
theorem joined (h : c.Tiled) : c.joined.elements =
    Curve.glue (if c.current.isEmpty then c.settled else c.settled ++ [c.current]) := by
  rw [LineCapture.joined]
  rcases h.current with hempty | ⟨s, hs⟩
  · rw [hempty]
    exact h.accumulated
  · -- of the segment, the settled path takes what it draws, unless it takes the whole curve
    rw [hs]
    show (if c.accumulated.isEmpty then Curve.ofCubics [s]
      else c.accumulated.pushSegment (.cubic s)).elements =
        Curve.glue (c.settled ++ [.ofCubics [s]])
    rw [Curve.glue_append_singleton, ← h.accumulated_isEmpty, ← h.accumulated, Curve.pushSegment]
    split <;> rfl

/-- The joined path is the settled pieces and the current segment behind them. -/
theorem joined_eq (h : c.Tiled) : c.joined.elements =
    if c.settled.isEmpty then c.current.elements
    else Curve.glue c.settled ++ c.current.elements.drop 1 := by
  rw [h.joined]
  by_cases hcurrent : c.current.isEmpty
  · have hempty : c.current.elements = [] := List.isEmpty_iff.1 hcurrent
    rw [if_pos hcurrent, hempty, List.drop_nil, List.append_nil]
    split
    next hsettled =>
      rw [List.isEmpty_iff.1 hsettled]
      rfl
    next => rfl
  · rw [if_neg hcurrent, Curve.glue_append_singleton]

/-- With one more piece, every piece still starts with a move. -/
theorem settled_append (h : c.Tiled) {piece : Curve R} {p : Point R} {path : Path R}
    (hpiece : piece.elements = .moveTo p :: path) :
    ∀ piece' ∈ c.settled ++ [piece], ∃ p path, piece'.elements = .moveTo p :: path :=
  List.forall_mem_append.2 ⟨h.settled, List.forall_mem_singleton.2 ⟨p, path, hpiece⟩⟩

theorem settleSamples (h : c.Tiled) {newest : Point R} (hnewest : c.window.last? = some newest) :
    c.settleSamples.Tiled := by
  obtain ⟨p, rest, hpoints⟩ := Window.exists_of_last? hnewest
  have hpiece : (Curve.polyline c.window.points).elements = .moveTo p :: rest.map .lineTo := by
    rw [hpoints, Curve.polyline_cons]
  refine ⟨?_, h.settled_append hpiece, h.current⟩
  show (c.accumulated.extendLines (if c.accumulated.isEmpty then c.window.points
    else c.window.points.drop 1)).elements = Curve.glue (c.settled ++ [.polyline c.window.points])
  -- behind other pieces the first sample is left out, and so is the move of the piece
  rw [Curve.glue_append_singleton, ← h.accumulated_isEmpty, ← h.accumulated, hpiece, hpoints,
    Curve.extendLines.eq_def]
  split <;> rfl

variable [Scalar R]

theorem settleCurrent (h : c.Tiled) (tolerance : R) {stop : Point R}
    (hstop : c.current.currentPoint? = some stop) (newest : Point R) :
    (c.settleCurrent tolerance stop newest).Tiled := by
  rcases h.current with hempty | ⟨s, hs⟩
  · rw [hempty] at hstop
    cases hstop
  · have hcurrent : c.current.isEmpty = false := by rw [hs]; rfl
    have hjoined := h.joined
    rw [hcurrent] at hjoined
    have hpiece : c.current.elements = [.moveTo s.p0, s.element] := by rw [hs]; rfl
    exact ⟨hjoined, h.settled_append hpiece, fitted_single _ tolerance⟩

theorem split (h : c.Tiled) (tolerance : R) : (c.split tolerance).Tiled := by
  rw [LineCapture.split]
  split
  next => exact h
  next newest stop _ hstop => exact h.settleCurrent tolerance hstop newest
  next newest hnewest _ => exact h.settleSamples hnewest

theorem fit (h : c.Tiled) (tolerance : R) : (c.fit tolerance).Tiled := by
  rw [LineCapture.fit]
  split
  next => exact h.split tolerance
  next =>
    split
    next s _ => exact ⟨h.accumulated, h.settled, .inr ⟨s, rfl⟩⟩
    next => exact h
    next => exact h.split tolerance

end Tiled

/-! ## Calls in any order -/

variable [Scalar R]

theorem Tiled.perform {c : LineCapture R} (h : c.Tiled) (call : Call R) :
    (c.perform call).Tiled := by
  cases call with
  | push p => exact h.push p
  | sample pen settings => exact h.push pen.viewPoint
  | fit tolerance => exact h.fit tolerance

theorem tiled_performed (calls : List (Call R)) : (performed calls).Tiled :=
  calls.foldlRecOn (motive := Tiled) _ tiled_empty fun _ h call _ => h.perform call

/-- Whatever is recorded and fitted, in any order, the accumulated path is the first settled piece
and what follows the leading move of every other one.  The preview is empty or one cubic segment.
The finished path is what has been settled after the last fit, followed by the preview, or the
preview alone if nothing has been settled. -/
theorem pieces_tile (calls : List (Call R)) (tolerance : R) :
    (performed calls).accumulated.elements = Curve.glue (performed calls).settled ∧
    (∀ piece ∈ (performed calls).settled, ∃ p path, piece.elements = .moveTo p :: path) ∧
    ((performed calls).current.elements = [] ∨
      ∃ p c1 c2 q, (performed calls).current.elements = [.moveTo p, .curveTo c1 c2 q]) ∧
    ((performed calls).finish tolerance).elements =
      if ((performed calls).fit tolerance).settled.isEmpty then
        ((performed calls).fit tolerance).current.elements
      else
        Curve.glue ((performed calls).fit tolerance).settled ++
          ((performed calls).fit tolerance).current.elements.drop 1 := by
  have h : (performed calls).Tiled := tiled_performed calls
  have hlast : ((performed calls).fit tolerance).Tiled := h.fit tolerance
  refine ⟨h.accumulated, h.settled, ?_, ?_⟩
  · rcases h.current with hempty | ⟨s, hs⟩
    · rw [hempty]
      exact .inl rfl
    · rw [hs]
      exact .inr ⟨s.p0, s.p1, s.p2, s.p3, rfl⟩
  · exact hlast.joined_eq

end LineCapture

end Freehand
