import Freehand.Proofs.Curve.Reversal

/-!
# Subpaths of built curves

A built curve starts with a move.  Drawing goes on from the current point, a line leads to a joined
curve, and turning a curve round keeps its elements what they are.  So there is no other move in a
built curve whose parts are all joined by lines (`Curve.Onward`), and the curve is one subpath up to
where it closes.

Drawing is refused on the empty curve only, and the curve stays empty (`Curve.tried`).
-/

namespace Freehand

variable {R : Type}

/-- The element starts a subpath. -/
def PathElement.isMove : PathElement R → Bool
  | .moveTo _ => true
  | _ => false

theorem Segment.isMove_element (s : Segment R) : s.element.isMove = false := by
  cases s <;> rfl

theorem PathElement.isMove_transformed [Scalar R] (m : Affine R) (el : PathElement R) :
    (el.transformed m).isMove = el.isMove := by
  cases el <;> rfl

theorem Path.isMove_map_lineTo (points : List (Point R)) :
    ∀ el ∈ points.map PathElement.lineTo, el.isMove = false := by
  intro el hel
  obtain ⟨p, -, rfl⟩ := List.mem_map.1 hel
  rfl

namespace Curve

/-! ## Curves that go on -/

/-- No element behind the first one is a move. -/
def Onward (c : Curve R) : Prop :=
  ∀ el ∈ c.elements.tail, el.isMove = false

variable {c c' other : Curve R}

theorem isMove_turned (el : PathElement R) (target : Point R) :
    (turned el target).isMove = el.isMove := by
  cases el <;> rfl

theorem isMove_bridge (el : PathElement R) : (bridge true el).isMove = false := by
  cases el <;> rfl

theorem onward_empty : (empty : Curve R).Onward :=
  List.forall_mem_nil _

theorem onward_moveTo (p : Point R) : (moveTo p).Onward :=
  List.forall_mem_nil _

/-- Turned round, a path has a move at the start, and no other one that it did not have before. -/
theorem onward_turnOnto (p : Point R) {after rest : Path R}
    (hafter : ∀ el ∈ after, el.isMove = false) (hrest : ∀ el ∈ rest, el.isMove = false) :
    Onward ⟨turnOnto after p rest⟩ := by
  induction rest generalizing p after with
  | nil => exact hafter
  | cons el rest ih =>
    obtain ⟨hel, hrest⟩ := List.forall_mem_cons.1 hrest
    exact ih _ (List.forall_mem_cons.2 ⟨(isMove_turned el p).trans hel, hafter⟩) hrest

namespace Onward

/-- A curve that goes on without a move has no more moves than before. -/
theorem goOn (h : c.Onward) (hne : c.isEmpty = false) {more : Path R}
    (hmore : ∀ el ∈ more, el.isMove = false) : Onward ⟨c.elements ++ more⟩ := by
  have htail : (c.elements ++ more).tail = c.elements.tail ++ more :=
    List.tail_append_of_ne_nil (by simpa [isEmpty] using hne)
  rw [Onward, htail]
  exact List.forall_mem_append.2 ⟨h, hmore⟩

/-- Drawing anything but a move goes on with a subpath. -/
theorem draw (h : c.Onward) {el : PathElement R} (hel : el.isMove = false)
    (hdraw : c.draw el = .ok c') : c'.Onward := by
  rw [Curve.draw] at hdraw
  split at hdraw
  next => cases hdraw
  next hne =>
    cases hdraw
    exact h.goOn (Bool.eq_false_iff.2 hne) (List.forall_mem_singleton.2 hel)

theorem pushSegment (h : c.Onward) (s : Segment R) : (c.pushSegment s).Onward := by
  have helement : ∀ el ∈ [s.element], el.isMove = false :=
    List.forall_mem_singleton.2 s.isMove_element
  rw [Curve.pushSegment]
  split
  next => exact (onward_moveTo s.start).goOn rfl helement
  next hne => exact h.goOn (Bool.eq_false_iff.2 hne) helement

theorem pushCubics (h : c.Onward) (segments : List (Cubic R)) : (c.pushCubics segments).Onward :=
  segments.foldlRecOn (motive := Onward) _ h fun _ hc s _ => hc.pushSegment (.cubic s)

theorem extendLines (h : c.Onward) (points : List (Point R)) : (c.extendLines points).Onward := by
  rw [Curve.extendLines.eq_def]
  split
  next =>
    cases points with
    | nil => exact h
    | cons p points => exact Path.isMove_map_lineTo points
  next hne => exact h.goOn (Bool.eq_false_iff.2 hne) (Path.isMove_map_lineTo points)

theorem close (h : c.Onward) : c.close.Onward := by
  rw [Curve.close]
  split
  next => exact h
  next hne => exact h.goOn (Bool.eq_false_iff.2 hne) (List.forall_mem_singleton.2 rfl)

/-- A line leads to the start of a curve that is joined, where a move was. -/
theorem append (h : c.Onward) (hother : other.Onward) : (c.append other true).Onward := by
  rcases other with ⟨_ | ⟨first, rest⟩⟩
  · exact h
  cases hne : c.isEmpty with
  | true =>
    obtain rfl : c = .empty := congrArg Curve.mk (List.isEmpty_iff.1 hne)
    rwa [empty_append]
  | false =>
    rw [append_mk hne]
    exact h.goOn hne (List.forall_mem_cons.2 ⟨isMove_bridge first, hother⟩)

/-- Backwards there is one move as well, as it takes the place of the last end. -/
theorem reversed (h : c.Onward) : c.reversed.Onward := by
  rw [Curve.reversed]
  split
  next => exact onward_empty
  next first rest hdrawing =>
    split
    next p _ =>
      have hsublist : rest.Sublist c.elements.tail := by
        have htail := (List.filter_sublist (p := fun el => !el.isClose) (l := c.elements)).tail
        rwa [hdrawing] at htail
      exact onward_turnOnto p (List.forall_mem_nil _) fun el hel => h el (hsublist.subset hel)
    next => exact onward_empty

theorem transformed [Scalar R] (h : c.Onward) (m : Affine R) : (c.transformed m).Onward := by
  intro el hel
  rw [Curve.transformed, Path.transformed, ← List.map_tail] at hel
  obtain ⟨el', hel', rfl⟩ := List.mem_map.1 hel
  exact (el'.isMove_transformed m).trans (h el' hel')

end Onward

/-- Joined by lines only, a curve that is built goes on as one subpath from its first move. -/
theorem Built.onward [Scalar R] (h : c.Built true) : c.Onward := by
  induction h with
  | empty => exact onward_empty
  | ofCubics segments => exact onward_empty.pushCubics segments
  | polyline points => exact onward_empty.extendLines points
  | moveTo p => exact onward_moveTo p
  | lineTo _ hdraw ih => exact ih.draw rfl hdraw
  | curveTo _ hdraw ih => exact ih.draw rfl hdraw
  | pushSegment _ s ih => exact ih.pushSegment s
  | extendLines _ points ih => exact ih.extendLines points
  | close _ ih => exact ih.close
  | append _ _ hconnect ih ihother =>
    rw [hconnect rfl]
    exact ih.append ihother
  | reversed _ ih => exact ih.reversed
  | transformed _ m ih => exact ih.transformed m

/-! ## Refusals -/

/-- The curve after an attempt to draw, which a refusal leaves as it was. -/
def tried (c : Curve R) (outcome : Except CurveError (Curve R)) : Curve R :=
  outcome.toOption.getD c

/-- Drawing is refused on the empty curve only, and leaves it empty. -/
theorem draw_refused (c : Curve R) (el : PathElement R) :
    (c.draw el = .error .noCurrentPoint ↔ c = .empty) ∧
      (c.draw el = .error .noCurrentPoint → c.tried (c.draw el) = .empty) := by
  have hempty : c.draw el = .error .noCurrentPoint ↔ c = .empty := by
    rcases c with ⟨_ | ⟨first, rest⟩⟩
    · exact iff_of_true rfl rfl
    · exact iff_of_false nofun nofun
  refine ⟨hempty, fun hrefused => ?_⟩
  rw [hrefused]
  exact hempty.1 hrefused

/-- A built curve that is not empty starts with a move, and if its parts are joined by lines only,
it has no other one.  Lines and cubic segments are refused on the empty curve only, and leave it
empty. -/
theorem Built.moves_once [Scalar R] {connected : Bool} (h : c.Built connected) :
    (c.isEmpty = false → ∃ p path, c.elements = .moveTo p :: path ∧
      (connected = true → ∀ el ∈ path, el.isMove = false)) ∧
    (∀ p, (c.lineTo p = .error .noCurrentPoint ↔ c = .empty) ∧
      (c.lineTo p = .error .noCurrentPoint → c.tried (c.lineTo p) = .empty)) ∧
    (∀ c1 c2 p, (c.curveTo c1 c2 p = .error .noCurrentPoint ↔ c = .empty) ∧
      (c.curveTo c1 c2 p = .error .noCurrentPoint → c.tried (c.curveTo c1 c2 p) = .empty)) := by
  refine ⟨fun hne => ?_, fun p => c.draw_refused _, fun c1 c2 p => c.draw_refused _⟩
  rcases h.headed with rfl | ⟨p, path, hpath⟩
  · cases hne
  refine ⟨p, path, hpath, fun hconnected => ?_⟩
  subst hconnected
  have honward := h.onward
  rwa [Onward, hpath] at honward

/-- Two edges, joined to an outline. -/
def ringed : Curve Int :=
  ((polyline [⟨0, 0⟩, ⟨4, 0⟩]).append (polyline [⟨0, 1⟩, ⟨4, 1⟩]).reversed true).close

/-- The outline of two edges that are joined by a line has one move. -/
theorem moves_once_ringed :
    ringed.length = 5 ∧
      ∃ p path, ringed.elements = .moveTo p :: path ∧ ∀ el ∈ path, el.isMove = false := by
  have hringed : ringed.Built true :=
    .close (.append (.polyline _) (.reversed (.polyline _)) fun _ => rfl)
  obtain ⟨p, path, hpath, hpath'⟩ := (Built.moves_once hringed).1 rfl
  exact ⟨rfl, p, path, hpath, hpath' rfl⟩

/-- Joined without a line, the second edge starts with a move of its own. -/
example : ¬((polyline [⟨0, 0⟩, ⟨4, 0⟩] : Curve Int).append (polyline [⟨0, 1⟩, ⟨4, 1⟩])
    false).Onward := by
  simp [Onward, polyline, extendLines, append, empty, isEmpty, PathElement.isMove]

end Curve

end Freehand
