import Freehand.Capture.Outline
import Freehand.Proofs.Capture.Line

/-!
# The pieces of an outline

While an outline is captured its settled edges grow, and each of them ends at the sample that its
window starts with (`OutlineCapture.Edged`).  What both edges cover, the right one drawn backwards,
covers the preview of every window that was settled (`OutlineCapture.Sound`): such a preview is made
of the parts that the edges went on with.

The finished outline covers what the edges cover.  It is left out if neither edge has an extent, and
then the settled pieces are covered by the preview of the last window, which goes through the
samples that the windows start with (`OutlineCapture.Shown.finish_covers`).
-/

namespace Freehand

variable {R : Type}

namespace OutlineCapture

/-! ## Edges -/

/-- The settled edges are in one piece each, up to the points `l` and `r`. -/
structure Edged (c : OutlineCapture R) (l r : Point R) : Prop where
  left : ∃ p, c.leftEdge.Spans p l
  right : ∃ q, c.rightEdge.Spans q r

/-- The capture with edges that go on and another preview. -/
def goOn (c : OutlineCapture R) (left right : Path R) (current : Curve R) : OutlineCapture R :=
  { c with
    leftEdge := ⟨c.leftEdge.elements ++ left⟩
    rightEdge := ⟨c.rightEdge.elements ++ right⟩
    current }

section

variable [Scalar R]

/-- What the settled edges cover, the right one drawn backwards. -/
def extent (c : OutlineCapture R) : Option (Rect R) :=
  Rect.join c.leftEdge.bounds c.rightEdge.reversed.bounds

variable (hlaw : Scalar.Ordered R)
include hlaw

theorem covers_leftEdge (c : OutlineCapture R) : Rect.Covers c.extent c.leftEdge.bounds :=
  Rect.Covers.join_left hlaw _ _

theorem covers_rightEdge (c : OutlineCapture R) :
    Rect.Covers c.extent c.rightEdge.reversed.bounds :=
  Rect.Covers.join_right hlaw _ _

end

namespace Edged

variable {c : OutlineCapture R} {l r x : Point R} {left right : Path R} {current : Curve R}

theorem goOn (h : c.Edged l r) (hleft : ∀ el ∈ left, el.isClose = false)
    (hright : ∀ el ∈ right, el.isClose = false) :
    (c.goOn left right current).Edged (Path.stop l left) (Path.stop r right) :=
  ⟨h.left.imp fun _ hp => hp.append hleft rfl, h.right.imp fun _ hq => hq.append hright rfl⟩

variable [Scalar R] (hlaw : Scalar.Ordered R) {box : Option (Rect R)}
include hlaw

/-- Edges that go on cover what they covered before. -/
theorem goOn_covers (h : c.Edged l r) (hright : ∀ el ∈ right, el.isClose = false) :
    Rect.Covers (c.goOn left right current).extent c.extent := by
  obtain ⟨q, hq⟩ := h.right
  refine Rect.Covers.join hlaw ?_ ?_
  · exact (covers_leftEdge hlaw _).trans hlaw (Path.covers_append hlaw _ _)
  · exact (covers_rightEdge hlaw _).trans hlaw (hq.reversed_covers_append hlaw hright)

/-- The left edge covers what it goes on with. -/
theorem goOn_covers_left (h : c.Edged l r) (hbox : box ∈ Path.boxes (some l) left) :
    Rect.Covers (c.goOn left right current).extent box := by
  obtain ⟨p, hp⟩ := h.left
  exact (covers_leftEdge hlaw _).trans hlaw (hp.covers_append hlaw hbox)

theorem goOn_covers_left_point (h : c.Edged l r) (hx : x ∈ l :: Path.ends left) :
    Rect.Covers (c.goOn left right current).extent (some (.ofPoint x)) := by
  obtain ⟨p, hp⟩ := h.left
  exact (covers_leftEdge hlaw _).trans hlaw (Path.covers_point hlaw (hp.mem_ends_append hx))

/-- The right edge covers what it goes on with, drawn backwards. -/
theorem goOn_covers_right (h : c.Edged l r) (hright : ∀ el ∈ right, el.isClose = false)
    (hbox : box ∈ Path.backBoxes r right) :
    Rect.Covers (c.goOn left right current).extent box := by
  obtain ⟨q, hq⟩ := h.right
  have happend : Curve.Spans ⟨c.rightEdge.elements ++ right⟩ q (Path.stop r right) :=
    hq.append hright rfl
  refine (covers_rightEdge hlaw _).trans hlaw (happend.reversed_covers_box hlaw ?_)
  show box ∈ Path.backBoxes q (c.rightEdge.elements ++ right)
  rw [Path.backBoxes_append, hq.stop_elements]
  exact List.mem_append_right _ hbox

theorem goOn_covers_right_point (h : c.Edged l r) (hright : ∀ el ∈ right, el.isClose = false)
    (hx : x ∈ r :: Path.ends right) :
    Rect.Covers (c.goOn left right current).extent (some (.ofPoint x)) := by
  obtain ⟨q, hq⟩ := h.right
  have happend : Curve.Spans ⟨c.rightEdge.elements ++ right⟩ q (Path.stop r right) :=
    hq.append hright rfl
  exact (covers_rightEdge hlaw _).trans hlaw
    (happend.reversed_covers_point hlaw (hq.mem_ends_append hx))

/-- The outline covers what the edges cover, unless neither of them has an extent. -/
theorem outline_covers (h : c.Edged l r) (hlong : 1 < c.leftEdge.length ∨ 1 < c.rightEdge.length) :
    Rect.Covers c.outline.bounds c.extent := by
  obtain ⟨⟨p, hp⟩, ⟨q, hq⟩⟩ := h
  have houtline : c.outline = (c.leftEdge.append c.rightEdge.reversed true).close := by
    simp [outline, hp.isEmpty, hq.isEmpty, hlong]
  rw [houtline, Curve.close_bounds]
  obtain ⟨hleft, hright⟩ := hp.covers_join hlaw hq
  exact hleft.join hlaw hright

end Edged

/-! ## Previews -/

section

variable {l r l' r' : Point R} {b1 b2 : List (Cubic R)}

/-- The outline of fitted edges, drawn element by element. -/
theorem windowOutline_eq (hleft : Cubic.Link l b1 l') (hright : Cubic.Link r b2 r') :
    windowOutline l r b1 b2 = Curve.close ⟨.moveTo l :: b1.map Cubic.element ++
      .lineTo r' :: (b2.reverse.map Cubic.reversed).map Cubic.element⟩ := by
  have hstart : (b1.head?.map Cubic.p0).getD l = l := by
    cases b1 with
    | nil => rfl
    | cons s b1 => exact hleft.1
  have hacross : (b2.getLast?.map Cubic.p3).getD r = r' := hright.getLast
  have hforward : ((Curve.moveTo l).pushCubics b1).Spans l l' :=
    (Curve.spans_moveTo l).pushCubics hleft
  rw [windowOutline, hstart, hacross, (hforward.extendLines [r']).pushCubics_eq,
    hforward.extendLines_eq, (Curve.spans_moveTo l).pushCubics_eq]
  simp [Curve.moveTo]

variable [Scalar R] (hlaw : Scalar.Ordered R) {area : Option (Rect R)}
include hlaw

/-- What covers the segments of both edges, the right ones drawn backwards, and the start of the one
and the end of the other covers the outline. -/
theorem covers_windowOutline (hleft : Cubic.Link l b1 l') (hright : Cubic.Link r b2 r')
    (hl : Rect.Covers area (some (.ofPoint l))) (hr : Rect.Covers area (some (.ofPoint r')))
    (hb1 : ∀ s ∈ b1, Rect.Covers area (some s.bounds))
    (hb2 : ∀ s ∈ b2, Rect.Covers area (some s.reversed.bounds)) :
    Rect.Covers area (windowOutline l r b1 b2).bounds := by
  rw [windowOutline_eq hleft hright, Curve.close_bounds]
  refine Path.covers_bounds hlaw fun box hbox => ?_
  have hbox : box ∈ some (.ofPoint l) :: Path.boxes (some l) (b1.map Cubic.element ++
      .lineTo r' :: (b2.reverse.map Cubic.reversed).map Cubic.element) := hbox
  rw [Path.boxes_append, Path.boxes_cons] at hbox
  rcases List.mem_cons.1 hbox with rfl | hbox
  · exact hl
  rcases List.mem_append.1 hbox with hbox | hbox
  · rw [hleft.boxes] at hbox
    obtain ⟨s, hs, rfl⟩ := List.mem_map.1 hbox
    exact hb1 s hs
  rcases List.mem_cons.1 hbox with rfl | hbox
  · exact hr
  · have hback : box ∈ Path.boxes (some r') ((b2.reverse.map Cubic.reversed).map Cubic.element) :=
      hbox
    rw [hright.reverse.boxes, List.map_map] at hback
    obtain ⟨s, hs, rfl⟩ := List.mem_map.1 hback
    exact hb2 s (List.mem_reverse.1 hs)

/-- The outline goes through the ends of both edges. -/
theorem windowOutline_covers (hleft : Cubic.Link l b1 l') (hright : Cubic.Link r b2 r')
    {x : Point R} (hx : x = l' ∨ x = r') :
    Rect.Covers (windowOutline l r b1 b2).bounds (some (.ofPoint x)) := by
  rw [windowOutline_eq hleft hright, Curve.close_bounds]
  refine Path.covers_point hlaw ?_
  have hforward : Curve.Spans ⟨.moveTo l :: b1.map Cubic.element⟩ l l' :=
    ⟨_, rfl, Cubic.isClose_elements b1, hleft.stop⟩
  rw [Path.ends_append]
  rcases hx with rfl | rfl
  · exact List.mem_append_left _ hforward.stop_mem
  · exact List.mem_append_right _ (.head _)

/-- The polygon of the samples is covered by what covers the samples. -/
theorem covers_samplePolygon (c : OutlineCapture R)
    (hleft : ∀ x ∈ c.left.points, Rect.Covers area (some (.ofPoint x)))
    (hright : ∀ x ∈ c.right.points, Rect.Covers area (some (.ofPoint x))) :
    Rect.Covers area c.samplePolygon.bounds := by
  rw [samplePolygon, Curve.close_bounds]
  refine Curve.covers_polyline hlaw (List.forall_mem_append.2 ⟨hleft, fun x hx => ?_⟩)
  exact hright x (List.mem_reverse.1 hx)

theorem samplePolygon_covers (c : OutlineCapture R) {x : Point R}
    (hx : x ∈ c.left.points ∨ x ∈ c.right.points) :
    Rect.Covers c.samplePolygon.bounds (some (.ofPoint x)) := by
  rw [samplePolygon, Curve.close_bounds]
  refine Path.covers_point hlaw ?_
  rw [Curve.ends_polyline, List.mem_append, List.mem_reverse]
  exact hx

end

/-! ## Taking up the samples -/

section

variable [Scalar R]

/-- The edges of `c` went on in `c'`, up to `l` and `r`.  Unless the stroke ends, the preview of
`c'` goes through these points and shows nothing but what the edges went on with. -/
structure Advance (c c' : OutlineCapture R) (ending : Bool) (l r : Point R) : Prop where
  left : c'.left = c.left
  right : c'.right = c.right
  settled : c'.settled = c.settled
  edged : c'.Edged l r
  left_length : c.leftEdge.length ≤ c'.leftEdge.length
  right_length : c.rightEdge.length ≤ c'.rightEdge.length
  grown : Rect.Covers c'.extent c.extent
  covered : ending = false → Rect.Covers c'.extent c'.current.bounds
  shown : ending = false → ∀ x, x = l ∨ x = r →
    Rect.Covers c'.current.bounds (some (.ofPoint x))

/-- Edges that take up the samples of their windows, fitted or as they are. -/
def kept (c : OutlineCapture R) (tolerance : R) (ending : Bool) : OutlineCapture R :=
  match Fit.curves c.left.points tolerance maxSegments,
      Fit.curves c.right.points tolerance maxSegments with
  | .ok b1, .ok b2 => c.keepFitted ending b1 b2
  | _, _ => c.keepSamples

variable {c : OutlineCapture R} {l r l' r' : Point R}

/-- Edges that go on advance if the preview shows what they go on with. -/
theorem Edged.advance (hlaw : Scalar.Ordered R) (h : c.Edged l r) {left right : Path R}
    {current : Curve R} {ending : Bool} (hleft : ∀ el ∈ left, el.isClose = false)
    (hright : ∀ el ∈ right, el.isClose = false) (hl' : Path.stop l left = l')
    (hr' : Path.stop r right = r')
    (hcovered : ending = false → Rect.Covers (c.goOn left right current).extent current.bounds)
    (hshown : ending = false → ∀ x, x = l' ∨ x = r' →
      Rect.Covers current.bounds (some (.ofPoint x))) :
    c.Advance (c.goOn left right current) ending l' r' where
  left := rfl
  right := rfl
  settled := rfl
  edged := by
    rw [← hl', ← hr']
    exact h.goOn hleft hright
  left_length := (List.sublist_append_left _ left).length_le
  right_length := (List.sublist_append_left _ right).length_le
  grown := h.goOn_covers hlaw hright
  covered := hcovered
  shown := hshown

variable (hl : c.left.points.head? = some l) (hr : c.right.points.head? = some r)
include hl hr

/-- Segments that were fitted to both windows lead on from where the edges ended. -/
theorem Edged.keepFitted (hlaw : Scalar.Ordered R) (h : c.Edged l r) {b1 b2 : List (Cubic R)}
    (hleft : Cubic.Link l b1 l') (hright : Cubic.Link r b2 r') (ending : Bool) :
    c.Advance (c.keepFitted ending b1 b2) ending l' r' := by
  have hopen := Cubic.isClose_elements (R := R)
  obtain ⟨⟨p, hp⟩, ⟨q, hq⟩⟩ := h
  have heq : c.keepFitted ending b1 b2 = c.goOn (b1.map Cubic.element) (b2.map Cubic.element)
      (if ending then c.current else windowOutline l r b1 b2) := by
    rw [OutlineCapture.keepFitted, hl, hr, hp.pushCubics_eq, hq.pushCubics_eq]
    rfl
  have hedged : c.Edged l r := ⟨⟨p, hp⟩, ⟨q, hq⟩⟩
  rw [heq]
  refine hedged.advance hlaw (hopen b1) (hopen b2) hleft.stop hright.stop ?_ ?_
  · rintro rfl
    refine covers_windowOutline hlaw hleft hright ?_ ?_ (fun s hs => ?_) fun s hs => ?_
    · exact hedged.goOn_covers_left_point hlaw (.head _)
    · refine hedged.goOn_covers_right_point hlaw (hopen b2) ?_
      rw [← hright.stop]
      exact List.mem_cons.2 (Path.stop_mem r _)
    · refine hedged.goOn_covers_left hlaw ?_
      rw [hleft.boxes]
      exact List.mem_map.2 ⟨s, hs, rfl⟩
    · refine hedged.goOn_covers_right hlaw (hopen b2) ?_
      rw [hright.backBoxes]
      exact List.mem_map.2 ⟨s, hs, rfl⟩
  · rintro rfl x hx
    exact windowOutline_covers hlaw hleft hright hx

/-- So do the samples themselves, where nothing can be fitted. -/
theorem Edged.keepSamples (hlaw : Scalar.Ordered R) (h : c.Edged l r)
    (hl' : c.left.points.getLast? = some l') (hr' : c.right.points.getLast? = some r')
    (ending : Bool) : c.Advance c.keepSamples ending l' r' := by
  have hopen := Path.isClose_lines (R := R)
  obtain ⟨⟨p, hp⟩, ⟨q, hq⟩⟩ := h
  obtain ⟨ls, hls⟩ := List.head?_eq_some_iff.1 hl
  obtain ⟨rs, hrs⟩ := List.head?_eq_some_iff.1 hr
  have heq : c.keepSamples = c.goOn (ls.map .lineTo) (rs.map .lineTo) c.samplePolygon := by
    rw [OutlineCapture.keepSamples, hp.extendLines_eq, hq.extendLines_eq, hls, hrs]
    rfl
  have hedged : c.Edged l r := ⟨⟨p, hp⟩, ⟨q, hq⟩⟩
  have hmeml : l' ∈ c.left.points := List.mem_of_getLast? hl'
  have hmemr : r' ∈ c.right.points := List.mem_of_getLast? hr'
  rw [hls, List.getLast?_cons, Option.some_inj] at hl'
  rw [hrs, List.getLast?_cons, Option.some_inj] at hr'
  rw [heq]
  refine hedged.advance hlaw (hopen ls) (hopen rs) ((Path.stop_lines l ls).trans hl')
    ((Path.stop_lines r rs).trans hr') (fun _ => ?_) fun _ x hx => ?_
  · refine covers_samplePolygon hlaw c (fun x hx => ?_) fun x hx => ?_
    · refine hedged.goOn_covers_left_point hlaw ?_
      rwa [Path.ends_lines, ← hls]
    · refine hedged.goOn_covers_right_point hlaw (hopen rs) ?_
      rwa [Path.ends_lines, ← hrs]
  · refine samplePolygon_covers hlaw c ?_
    rcases hx with rfl | rfl
    · exact .inl hmeml
    · exact .inr hmemr

theorem Edged.kept (hlaw : Scalar.Measured R) (h : c.Edged l r)
    (hl' : c.left.points.getLast? = some l') (hr' : c.right.points.getLast? = some r')
    (tolerance : R) (ending : Bool) : c.Advance (c.kept tolerance ending) ending l' r' := by
  rw [OutlineCapture.kept]
  split
  next b1 b2 hleft hright =>
    exact h.keepFitted hl hr hlaw.toOrdered
      (Fit.curves_link hlaw hleft (by decide) hl hl')
      (Fit.curves_link hlaw hright (by decide) hr hr') ending
  next => exact h.keepSamples hl hr hlaw.toOrdered hl' hr' ending

end

/-! ## Windows -/

@[simp]
theorem started_left (c : OutlineCapture R) : c.started.left = c.left := by
  rw [started]
  split <;> rfl

@[simp]
theorem started_right (c : OutlineCapture R) : c.started.right = c.right := by
  rw [started]
  split <;> rfl

@[simp]
theorem started_settled (c : OutlineCapture R) : c.started.settled = c.settled := by
  rw [started]
  split <;> rfl

@[simp]
theorem push_settled (c : OutlineCapture R) (l r : Point R) :
    (c.push l r).settled = c.settled := by
  rw [push]
  split <;> rfl

/-- A sample comes to windows that have room for it. -/
theorem push_eq {c : OutlineCapture R} (hlengths : c.left.points.length = c.right.points.length)
    (hroom : c.left.points.length < Window.capacity) (l r : Point R) :
    c.push l r = { c with
      left := ⟨c.left.points ++ [l]⟩, right := ⟨c.right.points ++ [r]⟩ } := by
  have hfull : c.left.isFull = false := decide_eq_false (Nat.not_le.2 hroom)
  have hroom' : c.right.points.length < Window.capacity := by omega
  simp [push, hfull, Window.push_eq hroom, Window.push_eq hroom']

/-- Windows that have samples and room for more are fitted. -/
theorem not_idle {c : OutlineCapture R} (hne : c.left.points ≠ [])
    (hroom : c.left.points.length < Window.capacity) :
    ¬(c.left.length = 0 ∨ c.left.isFull = true) := by
  rintro (hzero | hfull)
  · exact hne (List.eq_nil_of_length_eq_zero hzero)
  · exact absurd (of_decide_eq_true hfull) (Nat.not_le.2 hroom)

/-- The windows start again at the last samples. -/
theorem restarted_eq {c : OutlineCapture R} {l r : Point R}
    (hlengths : c.left.points.length = c.right.points.length)
    (hl : c.left.points.getLast? = some l) (hr : c.right.points.getLast? = some r) :
    c.restarted = { c with left := ⟨[l]⟩, right := ⟨[r]⟩ } := by
  have hleft : c.left.restart (c.left.length - 1) = ⟨[l]⟩ := Window.restart_last c.left hl
  have hright : c.right.restart (c.left.length - 1) = ⟨[r]⟩ := by
    rw [Window.length, hlengths]
    exact Window.restart_last c.right hr
  rw [restarted, hleft, hright]

/-! ## Settled pieces -/

section

variable [Scalar R]

/-- There is a sample of either edge for each other.  The edges are at the samples that the windows
start with, and cover every settled piece. -/
structure Sound (c : OutlineCapture R) : Prop where
  lengths : c.left.points.length = c.right.points.length
  edges : (c.leftEdge = .empty ∧ c.rightEdge = .empty ∧ c.settled = []) ∨
    ∃ l r, c.Edged l r ∧ c.left.points.head? = some l ∧ c.right.points.head? = some r
  covered : ∀ piece ∈ c.settled, Rect.Covers c.extent piece.bounds

/-- Between two samples the windows have room for two more, and the preview goes through the samples
that they start with. -/
structure Shown (c : OutlineCapture R) : Prop extends Sound c where
  room : c.left.points.length + 1 < Window.capacity
  heads : ∀ x, c.left.points.head? = some x ∨ c.right.points.head? = some x →
    Rect.Covers c.current.bounds (some (.ofPoint x))

theorem shown_empty : (empty : OutlineCapture R).Shown where
  lengths := rfl
  edges := .inl ⟨rfl, rfl, rfl⟩
  covered := List.forall_mem_nil _
  room := Nat.lt_of_sub_eq_succ rfl
  heads _ := nofun

namespace Sound

variable {c : OutlineCapture R}

/-- Edges that have not been started start where their windows do. -/
theorem started (h : c.Sound) {l r : Point R} (hl : c.left.points.head? = some l)
    (hr : c.right.points.head? = some r) : c.started.Sound ∧ c.started.Edged l r := by
  rcases h.edges with ⟨hleft, hright, hsettled⟩ | ⟨l', r', hedged, hl', hr'⟩
  · obtain ⟨ls, hls⟩ := List.head?_eq_some_iff.1 hl
    obtain ⟨rs, hrs⟩ := List.head?_eq_some_iff.1 hr
    have heq : c.started = { c with leftEdge := .moveTo l, rightEdge := .moveTo r } := by
      rw [OutlineCapture.started, hleft, hls, hrs]
      rfl
    have hedged : c.started.Edged l r := by
      rw [heq]
      exact ⟨⟨l, Curve.spans_moveTo l⟩, ⟨r, Curve.spans_moveTo r⟩⟩
    refine ⟨⟨?_, .inr ⟨l, r, hedged, ?_, ?_⟩, ?_⟩, hedged⟩
    · rw [started_left, started_right, h.lengths]
    · rwa [started_left]
    · rwa [started_right]
    · rw [started_settled, hsettled]
      exact List.forall_mem_nil _
  · obtain rfl : l' = l := Option.some.inj (hl'.symm.trans hl)
    obtain rfl : r' = r := Option.some.inj (hr'.symm.trans hr)
    have heq : c.started = c := by
      obtain ⟨⟨p, hp⟩, ⟨q, hq⟩⟩ := hedged
      simp [OutlineCapture.started, hp.isEmpty, hq.isEmpty]
    rw [heq]
    exact ⟨h, hedged⟩

/-- Windows with samples have a first and a last one. -/
theorem samples (h : c.Sound) (hne : c.left.points ≠ []) :
    ∃ l r l' r', c.left.points.head? = some l ∧ c.right.points.head? = some r ∧
      c.left.points.getLast? = some l' ∧ c.right.points.getLast? = some r' := by
  have hne' : c.right.points ≠ [] := by
    rw [← List.length_pos_iff, ← h.lengths, List.length_pos_iff]
    exact hne
  exact ⟨_, _, _, _, List.head?_eq_some_head hne, List.head?_eq_some_head hne',
    List.getLast?_eq_some_getLast hne, List.getLast?_eq_some_getLast hne'⟩

/-- The edges take up the samples. -/
theorem kept (hlaw : Scalar.Measured R) (h : c.Sound) {l r l' r' : Point R}
    (hl : c.left.points.head? = some l) (hr : c.right.points.head? = some r)
    (hl' : c.left.points.getLast? = some l') (hr' : c.right.points.getLast? = some r')
    (tolerance : R) (ending : Bool) :
    c.started.Advance (c.started.kept tolerance ending) ending l' r' :=
  (h.started hl hr).2.kept (by rwa [started_left]) (by rwa [started_right]) hlaw
    (by rwa [started_left]) (by rwa [started_right]) tolerance ending

theorem started_covered (h : c.Sound) {l r : Point R} (hl : c.left.points.head? = some l)
    (hr : c.right.points.head? = some r) {piece : Curve R} (hpiece : piece ∈ c.settled) :
    Rect.Covers c.started.extent piece.bounds :=
  (h.started hl hr).1.covered piece (by rwa [started_settled])

/-- The preview of a window that is settled is shown at last, and the next windows start at the last
samples. -/
theorem settle (hlaw : Scalar.Measured R) (h : c.Sound) (hne : c.left.points ≠ [])
    (tolerance : R) : (c.settle tolerance false).Shown ∧
      (c.settle tolerance false).settled = c.settled ++ [(c.settle tolerance false).current] := by
  obtain ⟨l, r, l', r', hl, hr, hl', hr'⟩ := h.samples hne
  have hadvance := h.kept hlaw hl hr hl' hr' tolerance false
  generalize hk : c.started.kept tolerance false = k at hadvance
  have hkl : k.left = c.left := hadvance.left.trans (started_left c)
  have hkr : k.right = c.right := hadvance.right.trans (started_right c)
  have heq : c.settle tolerance false = { k with
      left := ⟨[l']⟩, right := ⟨[r']⟩, settled := c.settled ++ [k.current] } := by
    rw [← started_settled c, ← hadvance.settled]
    have hrestarted : (c.settle tolerance false) =
        restarted { k with settled := k.settled ++ [k.current] } := by rw [← hk]; rfl
    rw [hrestarted]
    exact restarted_eq (by rw [hkl, hkr, h.lengths]) (by rwa [hkl]) (by rwa [hkr])
  rw [heq]
  have hedges := hadvance.edged
  refine ⟨⟨⟨rfl, .inr ⟨l', r', ⟨hedges.left, hedges.right⟩, rfl, rfl⟩, ?_⟩, ?_, ?_⟩, rfl⟩
  · refine List.forall_mem_append.2 ⟨fun piece hpiece => ?_, List.forall_mem_singleton.2 ?_⟩
    · exact hadvance.grown.trans hlaw.toOrdered (h.started_covered hl hr hpiece)
    · exact hadvance.covered rfl
  · exact Nat.lt_of_sub_eq_succ rfl
  · rintro x (hx | hx)
    · exact hadvance.shown rfl x (.inl (Option.some.inj hx).symm)
    · exact hadvance.shown rfl x (.inr (Option.some.inj hx).symm)

/-- After a fit the preview is shown, and a piece that was settled is the preview itself. -/
theorem fit (hlaw : Scalar.Measured R) (h : c.Sound) (hne : c.left.points ≠ [])
    (hroom : c.left.points.length < Window.capacity) (tolerance : R) :
    (c.fit tolerance).Shown ∧ ∃ pieces, (c.fit tolerance).settled = c.settled ++ pieces ∧
      ∀ piece ∈ pieces, piece = (c.fit tolerance).current := by
  rw [OutlineCapture.fit, fitWindow, if_neg (not_idle hne hroom)]
  split
  next =>
    obtain ⟨hshown, hsettled⟩ := h.settle hlaw hne tolerance
    exact ⟨hshown, _, hsettled, List.forall_mem_singleton.2 rfl⟩
  next hdue =>
    obtain ⟨l, r, -, -, hl, hr, -, -⟩ := h.samples hne
    refine ⟨⟨⟨h.lengths, ?_, h.covered⟩, ?_, ?_⟩, [], (List.append_nil _).symm,
      List.forall_mem_nil _⟩
    · exact h.edges.imp_right fun ⟨l, r, hedged, hheads⟩ =>
        ⟨l, r, ⟨hedged.left, hedged.right⟩, hheads⟩
    · have hdue' : c.left.points.length + 1 ≠ Window.capacity := fun heq => hdue (.inl heq)
      show c.left.points.length + 1 < Window.capacity
      omega
    · intro x hx
      exact samplePolygon_covers hlaw.toOrdered c
        (hx.imp List.mem_of_mem_head? List.mem_of_mem_head?)

end Sound

namespace Shown

variable {c : OutlineCapture R}

theorem push (h : c.Shown) (l r : Point R) : (c.push l r).Sound ∧
    (c.push l r).left.points ≠ [] ∧ (c.push l r).left.points.length < Window.capacity := by
  have hroom := h.room
  rw [push_eq h.lengths (by omega)]
  refine ⟨⟨?_, ?_, h.covered⟩, by simp, by simpa using hroom⟩
  · simp [h.lengths]
  · refine h.edges.imp_right fun ⟨l', r', hedged, hl', hr'⟩ => ?_
    exact ⟨l', r', ⟨hedged.left, hedged.right⟩, by simp [hl'], by simp [hr']⟩

/-- The preview and the finished outline cover every piece that was settled before. -/
theorem finish_covers (hlaw : Scalar.Measured R) (h : c.Shown) (tolerance : R) {piece : Curve R}
    (hpiece : piece ∈ c.settled) :
    Rect.Covers (Rect.join c.current.bounds (c.finish tolerance).bounds) piece.bounds := by
  have hord := hlaw.toOrdered
  have hroom := h.room
  have hne : c.left.points ≠ [] := by
    intro hnil
    rcases h.edges with ⟨-, -, hsettled⟩ | ⟨l, r, -, hl, -⟩
    · rw [hsettled] at hpiece
      cases hpiece
    · rw [hnil] at hl
      cases hl
  obtain ⟨l, r, l', r', hl, hr, hl', hr'⟩ := h.samples hne
  have hadvance := h.kept hlaw hl hr hl' hr' tolerance true
  have hcovered := h.started_covered hl hr hpiece
  have hfinish : c.finish tolerance = (c.started.kept tolerance true).outline := by
    rw [finish, fitWindow, if_neg (not_idle hne (by omega)), if_pos (.inr rfl)]
    rfl
  rw [hfinish]
  by_cases hlong : 1 < (c.started.kept tolerance true).leftEdge.length ∨
      1 < (c.started.kept tolerance true).rightEdge.length
  · refine (Rect.Covers.join_right hord _ _).trans hord ?_
    exact (hadvance.edged.outline_covers hord hlong).trans hord
      (hadvance.grown.trans hord hcovered)
  · -- the edges are still where they started
    refine (Rect.Covers.join_left hord _ _).trans hord (Rect.Covers.trans hord ?_ hcovered)
    obtain ⟨hleft, hright⟩ := not_or.1 hlong
    obtain ⟨⟨p, hp⟩, ⟨q, hq⟩⟩ := (h.started hl hr).2
    have hl₀ := hadvance.left_length
    have hr₀ := hadvance.right_length
    rw [extent, hp.eq_moveTo (by omega), hq.eq_moveTo (by omega)]
    exact (h.heads l (.inl hl)).join hord (h.heads r (.inr hr))

end Shown

end

end OutlineCapture

end Freehand
