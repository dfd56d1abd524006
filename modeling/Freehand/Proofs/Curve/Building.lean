import Freehand.Proofs.Capture.Shape

/-!
# How curves are built

A curve is *built* if the operations on curves lead to it, from any curves that were built before
(`Curve.Built`).  Every operation keeps the rule that a curve starts with a move unless it is empty
(`Curve.Headed`): drawing starts an empty curve with a move or is refused, a joined curve starts as
its first part does, and a curve drawn backwards starts with a move to its end.

So a built curve in which nothing closes is empty or one open subpath (`Curve.Built.unbroken`).
-/

namespace Freehand

variable {R : Type}

namespace Curve

/-! ## Curves that start with a move -/

/-- The curve is empty or starts with a move. -/
def Headed (c : Curve R) : Prop :=
  c = .empty ∨ ∃ p path, c.elements = .moveTo p :: path

variable {c c' other : Curve R}

theorem headed_empty : (empty : Curve R).Headed :=
  .inl rfl

theorem headed_moveTo (p : Point R) : (moveTo p).Headed :=
  .inr ⟨p, [], rfl⟩

/-- Drawn backwards, any curve starts with a move. -/
theorem headed_reversed (c : Curve R) : c.reversed.Headed := by
  rw [reversed]
  split
  next => exact headed_empty
  next first rest _ =>
    split
    next p _ =>
      obtain ⟨back, hback⟩ := turnOnto_head [] p rest
      exact .inr ⟨_, back, hback⟩
    next => exact headed_empty

namespace Headed

/-- A curve that goes on starts as before. -/
theorem goOn (h : c.Headed) (hne : c.isEmpty = false) (more : Path R) :
    Headed ⟨c.elements ++ more⟩ := by
  rcases h with rfl | ⟨p, path, hpath⟩
  · cases hne
  · exact .inr ⟨p, path ++ more, congrArg (· ++ more) hpath⟩

/-- Drawing goes on from a start, and is refused where there is none. -/
theorem draw (h : c.Headed) {el : PathElement R} (hdraw : c.draw el = .ok c') : c'.Headed := by
  rw [Curve.draw] at hdraw
  split at hdraw
  next => cases hdraw
  next hne =>
    cases hdraw
    exact h.goOn (Bool.eq_false_iff.2 hne) [el]

theorem pushSegment (h : c.Headed) (s : Segment R) : (c.pushSegment s).Headed := by
  rw [Curve.pushSegment]
  split
  next => exact (headed_moveTo s.start).goOn rfl [s.element]
  next hne => exact h.goOn (Bool.eq_false_iff.2 hne) [s.element]

theorem pushCubics (h : c.Headed) (segments : List (Cubic R)) : (c.pushCubics segments).Headed :=
  segments.foldlRecOn (motive := Headed) _ h fun _ hc s _ => hc.pushSegment (.cubic s)

theorem extendLines (h : c.Headed) (points : List (Point R)) : (c.extendLines points).Headed := by
  rw [Curve.extendLines.eq_def]
  split
  next =>
    cases points with
    | nil => exact h
    | cons p points => exact .inr ⟨p, _, rfl⟩
  next hne => exact h.goOn (Bool.eq_false_iff.2 hne) _

theorem close (h : c.Headed) : c.close.Headed := by
  rw [Curve.close]
  split
  next => exact h
  next hne => exact h.goOn (Bool.eq_false_iff.2 hne) [.close]

/-- What is joined starts as the first part does, or as the second if there is nothing before it. -/
theorem append (h : c.Headed) (hother : other.Headed) (connect : Bool) :
    (c.append other connect).Headed := by
  by_cases hne : c.isEmpty = true
  · rw [Curve.append]
    split
    next => exact h
    next => rwa [if_pos hne]
  · have hne := Bool.eq_false_iff.2 hne
    obtain ⟨more, hmore⟩ := append_elements hne other connect
    have happend := h.goOn hne more
    rwa [← hmore] at happend

theorem transformed [Scalar R] (h : c.Headed) (m : Affine R) : (c.transformed m).Headed := by
  rcases h with rfl | ⟨p, path, hpath⟩
  · exact headed_empty
  · refine .inr ⟨m.apply p, path.map (.transformed m), ?_⟩
    rw [Curve.transformed, Path.transformed, hpath]
    rfl

/-- Where nothing closes, a curve is empty or one open subpath. -/
theorem unbroken (h : c.Headed) (hopen : ∀ el ∈ c.elements, el.isClose = false) :
    c.Unbroken := by
  rcases h with rfl | ⟨p, path, hpath⟩
  · exact unbroken_empty
  · rw [hpath] at hopen
    exact .inr ⟨p, _, path, hpath, (List.forall_mem_cons.1 hopen).2, rfl⟩

end Headed

/-! ## Curves that operations lead to -/

namespace Built

variable [Scalar R] {connected : Bool}

/-- Every curve that is built starts with a move, or it is empty. -/
theorem headed (h : c.Built connected) : c.Headed := by
  induction h with
  | empty => exact headed_empty
  | ofCubics segments => exact headed_empty.pushCubics segments
  | polyline points => exact headed_empty.extendLines points
  | moveTo p => exact headed_moveTo p
  | lineTo _ hdraw ih => exact ih.draw hdraw
  | curveTo _ hdraw ih => exact ih.draw hdraw
  | pushSegment _ s ih => exact ih.pushSegment s
  | extendLines _ points ih => exact ih.extendLines points
  | close _ ih => exact ih.close
  | append _ _ _ ih ihother => exact ih.append ihother _
  | reversed => exact headed_reversed _
  | transformed _ m ih => exact ih.transformed m

theorem unbroken (h : c.Built connected) (hopen : ∀ el ∈ c.elements, el.isClose = false) :
    c.Unbroken :=
  h.headed.unbroken hopen

end Built

end Curve

end Freehand
