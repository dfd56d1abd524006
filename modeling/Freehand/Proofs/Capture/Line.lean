import Freehand.Proofs.Capture.Tiling
import Freehand.Proofs.Fit.Joints

/-!
# The pieces of a line

The settled pieces of a line capture lead from one to the next up to the sample that its window
starts with, and the current segment starts there.  The accumulated path is the pieces glued
together, and the finished path glues the current segment to it (`LineCapture.Sound`).

So the finished path covers every settled piece (`LineCapture.Sound.finish_covers`), and a piece
that a fit settles is what was shown as the current segment before, except where there was none
(`LineCapture.Sound.mem_fit_settled`).
-/

namespace Freehand

variable {R : Type}

/-! ## Windows -/

namespace Window

/-- A sample comes to a window that has room for it. -/
theorem push_eq {w : Window R} (hroom : w.points.length < capacity) (p : Point R) :
    w.push p = ⟨w.points ++ [p]⟩ := by
  have hfull : w.isFull = false := decide_eq_false (Nat.not_le.2 hroom)
  rw [push, hfull]
  rfl

/-- A sample that comes to a window does not change where it starts. -/
theorem push_head? {w : Window R} {p : Point R} (hp : w.points.head? = some p) (q : Point R) :
    (w.push q).points.head? = some p := by
  rw [push]
  split
  · exact hp
  · rw [List.head?_append, hp]
    rfl

theorem restart_last (w : Window R) {p : Point R} (hp : w.last? = some p) :
    w.restart (w.points.length - 1) = ⟨[p]⟩ := by
  rw [last?, List.getLast?_eq_getElem?] at hp
  rw [restart, hp]

end Window

namespace LineCapture

/-- The accumulated path is the settled pieces glued together.  They lead to where the window
starts, and so does the current segment, if there is one, lead away from there. -/
structure Sound (c : LineCapture R) : Prop where
  accumulated : c.accumulated.elements = Curve.glue c.settled
  current : c.current = .empty ∨
    ∃ s, c.current = .ofCubics [s] ∧ c.window.points.head? = some s.p0
  lead : c.settled ≠ [] →
    ∃ p q, Curve.Lead p c.settled q ∧ c.window.points.head? = some q

theorem sound_empty : (empty : LineCapture R).Sound :=
  ⟨rfl, .inl rfl, absurd rfl⟩

section

variable [Scalar R]

theorem fitted_cases (hlaw : Scalar.Measured R) (points : List (Point R)) (tolerance : R) :
    fitted points tolerance = .empty ∨
      ∃ s, fitted points tolerance = .ofCubics [s] ∧ points.head? = some s.p0 := by
  rw [fitted]
  split
  next s hcurve => exact .inr ⟨s, rfl, Fit.curve_start hlaw hcurve⟩
  next => exact .inl rfl

theorem settled_subset_split (c : LineCapture R) (tolerance : R) :
    c.settled ⊆ (c.split tolerance).settled := by
  rw [LineCapture.split]
  split
  next => exact List.Subset.refl _
  next => exact List.subset_append_left _ _
  next => exact List.subset_append_left _ _

/-- A fit splits the window, or it settles nothing. -/
theorem fit_cases (c : LineCapture R) (tolerance : R) :
    c.fit tolerance = c.split tolerance ∨ (c.fit tolerance).settled = c.settled := by
  rw [LineCapture.fit]
  split
  next => exact .inl rfl
  next =>
    split
    next => exact .inr rfl
    next => exact .inr rfl
    next => exact .inl rfl

theorem settled_subset_fit (c : LineCapture R) (tolerance : R) :
    c.settled ⊆ (c.fit tolerance).settled := by
  rcases fit_cases c tolerance with hsplit | hsettled
  · rw [hsplit]
    exact settled_subset_split c tolerance
  · rw [hsettled]
    exact List.Subset.refl _

end

namespace Sound

variable {c : LineCapture R}

theorem push (h : c.Sound) (p : Point R) : (c.push p).Sound where
  accumulated := h.accumulated
  current := h.current.imp_right fun ⟨s, hs, hhead⟩ => ⟨s, hs, Window.push_head? hhead p⟩
  lead hne := by
    obtain ⟨q, r, hlead, hhead⟩ := h.lead hne
    exact ⟨q, r, hlead, Window.push_head? hhead p⟩

theorem tiled (h : c.Sound) : c.Tiled where
  accumulated := h.accumulated
  settled piece hpiece := by
    obtain ⟨p, q, hlead, -⟩ := h.lead (List.ne_nil_of_mem hpiece)
    obtain ⟨r, s, path, hpath, -⟩ := hlead.spans_of_mem hpiece
    exact ⟨r, path, hpath⟩
  current := h.current.imp_right fun ⟨s, hs, _⟩ => ⟨s, hs⟩

/-- With the current segment behind them, the pieces still lead from one to the next. -/
theorem lead_current (h : c.Sound) {s : Cubic R} (hs : c.current = .ofCubics [s])
    (hhead : c.window.points.head? = some s.p0) :
    ∃ p, Curve.Lead p (c.settled ++ [c.current]) s.p3 := by
  have hspans : c.current.Spans s.p0 s.p3 := hs ▸ Curve.spans_ofCubics s
  by_cases hsettled : c.settled = []
  · rw [hsettled]
    exact ⟨s.p0, s.p3, hspans, rfl⟩
  · obtain ⟨p, q, hlead, hstart⟩ := h.lead hsettled
    obtain rfl : q = s.p0 := Option.some.inj (hstart.symm.trans hhead)
    exact ⟨p, hlead.append_singleton hspans⟩

/-- The samples are settled and a new window starts at the last of them. -/
theorem settleSamples (h : c.Sound) (hcurrent : c.current = .empty) {newest : Point R}
    (hnewest : c.window.last? = some newest) : c.settleSamples.Sound := by
  have hrestart := Window.restart_last c.window hnewest
  obtain ⟨p, rest, hpoints⟩ := Window.exists_of_last? hnewest
  have hpiece : (Curve.polyline (p :: rest)).Spans p newest := by
    rw [Window.last?, hpoints, List.getLast?_cons] at hnewest
    cases hnewest
    exact Curve.spans_polyline p rest
  constructor
  · exact (h.tiled.settleSamples hnewest).accumulated
  · exact .inl hcurrent
  · intro _
    show ∃ q r, Curve.Lead q (c.settled ++ [.polyline c.window.points]) r ∧
      (c.window.restart (c.window.points.length - 1)).points.head? = some r
    rw [hrestart, hpoints]
    by_cases hsettled : c.settled = []
    · rw [hsettled]
      exact ⟨p, newest, ⟨newest, hpiece, rfl⟩, rfl⟩
    · obtain ⟨q, r, hlead, hhead⟩ := h.lead hsettled
      obtain rfl : p = r := by rw [hpoints] at hhead; exact Option.some.inj hhead
      exact ⟨q, newest, hlead.append_singleton hpiece, rfl⟩

/-- Without a current point there is no current segment. -/
theorem currentPoint?_none (h : c.Sound) (hnone : c.current.currentPoint? = none) :
    c.current = .empty := by
  rcases h.current with hempty | ⟨s, hs, -⟩
  · exact hempty
  · rw [hs, (Curve.spans_ofCubics s).currentPoint?] at hnone
    cases hnone

/-- A current point is the end of the current segment, which starts where the window starts. -/
theorem currentPoint?_some (h : c.Sound) {stop : Point R}
    (hstop : c.current.currentPoint? = some stop) :
    ∃ s, c.current = .ofCubics [s] ∧ c.window.points.head? = some s.p0 ∧ stop = s.p3 := by
  rcases h.current with hempty | ⟨s, hs, hhead⟩
  · rw [hempty] at hstop
    cases hstop
  · rw [hs, (Curve.spans_ofCubics s).currentPoint?] at hstop
    exact ⟨s, hs, hhead, (Option.some.inj hstop).symm⟩

variable [Scalar R]

/-- The current segment is settled and a new window starts at its end. -/
theorem settleCurrent (hlaw : Scalar.Measured R) (h : c.Sound) (tolerance : R) {s : Cubic R}
    (hs : c.current = .ofCubics [s]) (hhead : c.window.points.head? = some s.p0)
    (newest : Point R) : (c.settleCurrent tolerance s.p3 newest).Sound where
  accumulated := by
    have hstop : c.current.currentPoint? = some s.p3 := by
      rw [hs, (Curve.spans_ofCubics s).currentPoint?]
    exact (h.tiled.settleCurrent tolerance hstop newest).accumulated
  current := fitted_cases hlaw _ tolerance
  lead _ := by
    obtain ⟨p, hlead⟩ := h.lead_current hs hhead
    refine ⟨p, s.p3, hlead, ?_⟩
    show (if newest != s.p3 then [s.p3, newest] else [s.p3]).head? = some s.p3
    split <;> rfl

theorem split (hlaw : Scalar.Measured R) (h : c.Sound) (tolerance : R) :
    (c.split tolerance).Sound := by
  rw [LineCapture.split]
  split
  next => exact h
  next newest stop hnewest hstop =>
    obtain ⟨s, hs, hhead, rfl⟩ := h.currentPoint?_some hstop
    exact h.settleCurrent hlaw tolerance hs hhead newest
  next newest hnewest hnone => exact h.settleSamples (h.currentPoint?_none hnone) hnewest

/-- What a split settles was the current segment, unless there was none and is none. -/
theorem mem_split_settled (h : c.Sound) (tolerance : R) {piece : Curve R}
    (hpiece : piece ∈ (c.split tolerance).settled) : piece ∈ c.settled ∨ piece = c.current ∨
      c.current = .empty ∧ (c.split tolerance).current = .empty := by
  rw [LineCapture.split] at hpiece ⊢
  split at hpiece
  next => exact .inl hpiece
  next newest stop _ _ =>
    exact (List.mem_append.1 hpiece).imp_right fun hlast => .inl (List.mem_singleton.1 hlast)
  next newest _ hnone =>
    have hcurrent := h.currentPoint?_none hnone
    exact .inr (.inr ⟨hcurrent, hcurrent⟩)

theorem fit (hlaw : Scalar.Measured R) (h : c.Sound) (tolerance : R) : (c.fit tolerance).Sound := by
  rw [LineCapture.fit]
  split
  next => exact h.split hlaw tolerance
  next =>
    split
    next s hcurve => exact ⟨h.accumulated, .inr ⟨s, rfl, Fit.curve_start hlaw hcurve⟩, h.lead⟩
    next => exact h
    next => exact h.split hlaw tolerance

/-- What a fit settles was the current segment, unless there was none and is none. -/
theorem mem_fit_settled (h : c.Sound) (tolerance : R) {piece : Curve R}
    (hpiece : piece ∈ (c.fit tolerance).settled) : piece ∈ c.settled ∨ piece = c.current ∨
      c.current = .empty ∧ (c.fit tolerance).current = .empty := by
  rcases fit_cases c tolerance with hsplit | hsettled
  · rw [hsplit] at hpiece ⊢
    exact h.mem_split_settled tolerance hpiece
  · rw [hsettled] at hpiece
    exact .inl hpiece

/-- The finished path covers every piece that was settled before. -/
theorem finish_covers (hlaw : Scalar.Measured R) (h : c.Sound) (tolerance : R) {piece : Curve R}
    (hpiece : piece ∈ c.settled) :
    Rect.Covers (c.finish tolerance).bounds piece.bounds := by
  have hsound := h.fit hlaw tolerance
  have hmem : piece ∈ (c.fit tolerance).settled := settled_subset_fit c tolerance hpiece
  rw [finish, Curve.bounds, hsound.tiled.joined]
  rcases hsound.current with hempty | ⟨s, hs, hhead⟩
  · obtain ⟨p, q, hlead, -⟩ := hsound.lead (List.ne_nil_of_mem hmem)
    rw [hempty]
    exact hlead.covers_glue hlaw.toOrdered hmem
  · obtain ⟨p, hlead⟩ := hsound.lead_current hs hhead
    have hcurrent : (c.fit tolerance).current.isEmpty = false := by rw [hs]; rfl
    rw [hcurrent]
    exact hlead.covers_glue hlaw.toOrdered (List.mem_append_left _ hmem)

end Sound

end LineCapture

end Freehand
