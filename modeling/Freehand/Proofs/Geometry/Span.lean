import Freehand.Proofs.Geometry.Extent
import Mathlib.Data.List.Induction

/-!
# Curves in one piece

A curve spans two points if it is one open subpath from the one to the other (`Curve.Spans`).
Straight lines go on from where it ends, and so do cubic segments each of which starts where the one
before it ended (`Cubic.Link`).

Curves that lead from one to the next are glued by leaving out all moves but the first.  What is
glued covers the boxes of all of them (`Curve.Lead.covers_glue`), since each is drawn from where it
was drawn on its own.
-/

namespace Freehand

variable {R : Type}

/-! ## Segments in a row -/

namespace Cubic

/-- The segments lead from `p` to `q`: each starts where the one before it ended. -/
def Link (p : Point R) : List (Cubic R) → Point R → Prop
  | [], q => p = q
  | s :: segments, q => s.p0 = p ∧ Link s.p3 segments q

/-- The element that draws the segment from its start. -/
def element (s : Cubic R) : PathElement R :=
  .curveTo s.p1 s.p2 s.p3

variable {p q r : Point R} {segments segments' : List (Cubic R)}

/-- Segments close nothing. -/
theorem isClose_elements (segments : List (Cubic R)) :
    ∀ el ∈ segments.map element, el.isClose = false := by
  intro el hel
  obtain ⟨s, -, rfl⟩ := List.mem_map.1 hel
  rfl

theorem Link.append (h : Link p segments q) (h' : Link q segments' r) :
    Link p (segments ++ segments') r := by
  induction segments generalizing p with
  | nil =>
    obtain rfl : p = q := h
    exact h'
  | cons s segments ih => exact ⟨h.1, ih h.2⟩

/-- Drawn backwards, the segments lead back. -/
theorem Link.reverse (h : Link p segments q) : Link q (segments.reverse.map reversed) p := by
  induction segments generalizing p with
  | nil => exact h.symm
  | cons s segments ih =>
    rw [List.reverse_cons, List.map_append]
    exact (ih h.2).append ⟨rfl, h.1⟩

theorem Link.stop (h : Link p segments q) : Path.stop p (segments.map element) = q := by
  induction segments generalizing p with
  | nil => exact h
  | cons s segments ih => exact ih h.2

/-- The last segment ends where they lead. -/
theorem Link.getLast (h : Link p segments q) : (segments.getLast?.map p3).getD p = q := by
  induction segments generalizing p with
  | nil => exact h
  | cons s segments ih =>
    rw [List.getLast?_cons, ← ih h.2]
    cases segments.getLast? <;> rfl

variable [Scalar R]

/-- Segments in a row are drawn as on their own. -/
theorem Link.boxes (h : Link p segments q) :
    Path.boxes (some p) (segments.map element) = segments.map fun s => some s.bounds := by
  induction segments generalizing p with
  | nil => rfl
  | cons s segments ih =>
    obtain ⟨rfl, hlink⟩ := h
    rw [List.map_cons, List.map_cons, Path.boxes_cons]
    exact congrArg (some s.bounds :: ·) (ih hlink)

theorem Link.backBoxes (h : Link p segments q) :
    Path.backBoxes p (segments.map element) = segments.map fun s => some s.reversed.bounds := by
  induction segments generalizing p with
  | nil => rfl
  | cons s segments ih =>
    obtain ⟨rfl, hlink⟩ := h
    rw [List.map_cons, List.map_cons, Path.backBoxes]
    exact congrArg (some s.reversed.bounds :: ·) (ih hlink)

end Cubic

/-! ## Spans -/

theorem Path.stop_lines (p : Point R) (points : List (Point R)) :
    Path.stop p (points.map .lineTo) = points.getLast?.getD p := by
  induction points generalizing p with
  | nil => rfl
  | cons q points ih =>
    rw [List.map_cons, Path.stop_cons, ih, List.getLast?_cons]
    rfl

/-- Lines close nothing. -/
theorem Path.isClose_lines (points : List (Point R)) :
    ∀ el ∈ points.map PathElement.lineTo, el.isClose = false := by
  intro el hel
  obtain ⟨x, -, rfl⟩ := List.mem_map.1 hel
  rfl

theorem Path.ends_lines (points : List (Point R)) : Path.ends (points.map .lineTo) = points := by
  rw [ends, List.filterMap_map]
  exact List.filterMap_some

theorem Path.boxes_lines [Scalar R] (p : Point R) (points : List (Point R)) :
    Path.boxes (some p) (points.map .lineTo) = points.map fun x => some (.ofPoint x) := by
  induction points generalizing p with
  | nil => rfl
  | cons q points ih =>
    rw [List.map_cons, Path.boxes_cons, List.map_cons]
    exact congrArg (some (.ofPoint q) :: ·) (ih q)

namespace Curve

/-- The curve is one open subpath from `p` to `q`. -/
def Spans (c : Curve R) (p q : Point R) : Prop :=
  ∃ path, c.elements = .moveTo p :: path ∧ (∀ el ∈ path, el.isClose = false) ∧
    Path.stop p path = q

/-- The last end point of a path is where it ends. -/
theorem findSome?_reverse (p : Point R) (path : Path R) :
    (path.reverse.findSome? PathElement.endPoint?).getD p = Path.stop p path := by
  induction path using List.reverseRecOn with
  | nil => rfl
  | append_singleton path el ih =>
    rw [List.reverse_append, Path.stop_append, ← ih]
    cases hend : el.endPoint? with
    | none => simp [PathElement.stop, hend]
    | some q => simp [PathElement.stop, hend]

namespace Spans

variable {c : Curve R} {p q r : Point R}

theorem isEmpty (h : c.Spans p q) : c.isEmpty = false := by
  obtain ⟨path, hpath, -⟩ := h
  rw [Curve.isEmpty, hpath]
  rfl

theorem currentPoint? (h : c.Spans p q) : c.currentPoint? = some q := by
  obtain ⟨path, hpath, -, rfl⟩ := h
  rw [Curve.currentPoint?, hpath, List.reverse_cons, List.findSome?_append, ← findSome?_reverse p]
  cases path.reverse.findSome? PathElement.endPoint? <;> rfl

/-- A curve of one element is the point that it is at. -/
theorem eq_moveTo (h : c.Spans p q) (hshort : c.length ≤ 1) : c = .moveTo q := by
  obtain ⟨path, hpath, -, rfl⟩ := h
  rw [Curve.length, hpath, List.length_cons] at hshort
  obtain rfl : path = [] := List.eq_nil_of_length_eq_zero (by omega)
  exact congrArg Curve.mk hpath

/-- A curve that goes on from where it ended. -/
theorem append (h : c.Spans p q) {path : Path R} (hopen : ∀ el ∈ path, el.isClose = false)
    (hstop : Path.stop q path = r) : Spans ⟨c.elements ++ path⟩ p r := by
  obtain ⟨path', hpath', hopen', rfl⟩ := h
  refine ⟨path' ++ path, congrArg (· ++ path) hpath', ?_, ?_⟩
  · exact List.forall_mem_append.2 ⟨hopen', hopen⟩
  · rw [Path.stop_append, hstop]

/-! ### Going on with lines and with segments -/

theorem extendLines_eq (h : c.Spans p q) (points : List (Point R)) :
    c.extendLines points = ⟨c.elements ++ points.map .lineTo⟩ := by
  simp only [Curve.extendLines, h.isEmpty, Bool.false_eq_true, if_false]

theorem extendLines (h : c.Spans p q) (points : List (Point R)) :
    (c.extendLines points).Spans p (points.getLast?.getD q) := by
  rw [h.extendLines_eq]
  exact h.append (Path.isClose_lines points) (Path.stop_lines q points)

/-- Pushed behind a curve with an end, segments are drawn from there on without a move. -/
theorem pushCubics_eq (h : c.Spans p q) (segments : List (Cubic R)) :
    c.pushCubics segments = ⟨c.elements ++ segments.map Cubic.element⟩ := by
  induction segments generalizing c q with
  | nil => simp [pushCubics]
  | cons s segments ih =>
    have hpush : c.pushSegment (.cubic s) = ⟨c.elements ++ [s.element]⟩ := by
      rw [pushSegment, h.isEmpty]
      rfl
    have hs : Spans ⟨c.elements ++ [s.element]⟩ p s.p3 :=
      h.append (Cubic.isClose_elements [s]) rfl
    calc c.pushCubics (s :: segments)
      _ = (c.pushSegment (.cubic s)).pushCubics segments := rfl
      _ = ⟨c.elements ++ [s.element] ++ segments.map Cubic.element⟩ := by rw [hpush, ih hs]
      _ = _ := by rw [List.append_assoc]; rfl

theorem pushCubics (h : c.Spans p q) {segments : List (Cubic R)} (hlink : Cubic.Link q segments r) :
    (c.pushCubics segments).Spans p r := by
  rw [h.pushCubics_eq]
  exact h.append (Cubic.isClose_elements segments) hlink.stop

/-! ### What they cover -/

theorem stop_elements (h : c.Spans p q) : Path.stop p c.elements = q := by
  obtain ⟨path, hpath, -, hstop⟩ := h
  rw [hpath]
  exact hstop

theorem stop_mem (h : c.Spans p q) : q ∈ Path.ends c.elements := by
  obtain ⟨path, hpath, -, rfl⟩ := h
  rw [hpath]
  exact List.mem_cons.2 (Path.stop_mem p path)

theorem start_mem (h : c.Spans p q) : p ∈ Path.ends c.elements := by
  obtain ⟨path, hpath, -, -⟩ := h
  rw [hpath]
  exact .head _

/-- A curve that goes on ends its elements where it was and where it goes. -/
theorem mem_ends_append (h : c.Spans p q) {path : Path R} {x : Point R}
    (hx : x ∈ q :: Path.ends path) : x ∈ Path.ends (c.elements ++ path) := by
  rw [Path.ends_append]
  rcases List.mem_cons.1 hx with rfl | hx
  · exact List.mem_append_left _ h.stop_mem
  · exact List.mem_append_right _ hx

/-- Without closing elements, all elements are turned. -/
theorem reversed_elements (h : c.Spans p q) :
    ∃ path, c.elements = .moveTo p :: path ∧ c.reversed.elements = turnOnto [] p path := by
  obtain ⟨path, hpath, hopen, -⟩ := h
  have hfilter : c.elements.filter (fun el => !el.isClose) = .moveTo p :: path := by
    rw [List.filter_eq_self.2, hpath]
    rw [hpath]
    exact List.forall_mem_cons.2 ⟨rfl, fun el hel => by rw [hopen el hel]; rfl⟩
  refine ⟨path, hpath, ?_⟩
  rw [reversed, hfilter]
  rfl

section

variable [Scalar R] (hlaw : Scalar.Ordered R) {path : Path R} {area box : Option (Rect R)}
  {x : Point R}
include hlaw

/-- A curve that goes on covers what is drawn from where it ended. -/
theorem covers_append (h : c.Spans p q) (hbox : box ∈ Path.boxes (some q) path) :
    Rect.Covers (Path.bounds (c.elements ++ path)) box := by
  obtain ⟨path', hpath', -, rfl⟩ := h
  refine Path.covers_box hlaw ?_
  rw [hpath']
  show box ∈ some (.ofPoint p) :: Path.boxes (some p) (path' ++ path)
  rw [Path.boxes_append]
  exact .tail _ (List.mem_append_right _ hbox)

/-- Drawn backwards, a curve covers the points that its elements end at. -/
theorem reversed_covers_point (h : c.Spans p q) (hx : x ∈ Path.ends c.elements) :
    Rect.Covers c.reversed.bounds (some (.ofPoint x)) := by
  obtain ⟨path, hpath, hreversed⟩ := h.reversed_elements
  refine Path.covers_point hlaw ?_
  rw [hreversed]
  rw [hpath] at hx
  exact Path.mem_ends_turnOnto ((List.mem_cons.1 hx).imp_right .inl)

/-- Drawn backwards, a curve covers its turned elements. -/
theorem reversed_covers_box (h : c.Spans p q) (hbox : box ∈ Path.backBoxes p c.elements) :
    Rect.Covers c.reversed.bounds box := by
  have hstart := h.reversed_covers_point hlaw h.start_mem
  obtain ⟨path, hpath, hreversed⟩ := h.reversed_elements
  rw [hpath] at hbox
  rcases List.mem_cons.1 hbox with rfl | hbox
  · exact hstart
  · refine Path.covers_box hlaw ?_
    rw [hreversed, Path.boxes_turnOnto]
    exact .tail _ (List.mem_append_left _ (List.mem_reverse.2 hbox))

/-- What covers the turned elements and the end of a curve covers the curve drawn backwards. -/
theorem covers_reversed (h : c.Spans p q)
    (hboxes : ∀ box ∈ Path.backBoxes p c.elements, Rect.Covers area box)
    (hstop : Rect.Covers area (some (.ofPoint q))) : Rect.Covers area c.reversed.bounds := by
  have hq := h.stop_elements
  obtain ⟨path, hpath, hreversed⟩ := h.reversed_elements
  rw [hpath] at hboxes hq
  refine Path.covers_bounds hlaw fun box hbox => ?_
  rw [hreversed, Path.boxes_turnOnto] at hbox
  rcases List.mem_cons.1 hbox with rfl | hbox
  · rwa [← hq] at hstop
  · rcases List.mem_append.1 hbox with hbox | hbox
    · exact hboxes box (.tail _ (List.mem_reverse.1 hbox))
    · cases hbox

/-- Drawn backwards, a curve that goes on covers what it covered before. -/
theorem reversed_covers_append (h : c.Spans p q) (hopen : ∀ el ∈ path, el.isClose = false) :
    Rect.Covers (Curve.reversed ⟨c.elements ++ path⟩).bounds c.reversed.bounds := by
  have happend : Spans ⟨c.elements ++ path⟩ p (Path.stop q path) := h.append hopen rfl
  refine h.covers_reversed hlaw (fun box hbox => happend.reversed_covers_box hlaw ?_)
    (happend.reversed_covers_point hlaw ?_)
  · show box ∈ Path.backBoxes p (c.elements ++ path)
    rw [Path.backBoxes_append]
    exact List.mem_append_left _ hbox
  · exact h.mem_ends_append (.head _)

end

end Spans

theorem spans_moveTo (p : Point R) : (moveTo p).Spans p p :=
  ⟨[], rfl, List.forall_mem_nil _, rfl⟩

theorem spans_polyline (p : Point R) (points : List (Point R)) :
    (polyline (p :: points)).Spans p (points.getLast?.getD p) :=
  (spans_moveTo p).extendLines points

theorem spans_ofCubics (s : Cubic R) : (ofCubics [s]).Spans s.p0 s.p3 :=
  have hlink : Cubic.Link s.p0 [s] s.p3 := ⟨rfl, rfl⟩
  (spans_moveTo s.p0).pushCubics hlink

/-! ## Closing and joining -/

theorem ends_polyline (points : List (Point R)) :
    Path.ends (polyline points).elements = points := by
  cases points with
  | nil => rfl
  | cons p points => exact congrArg (p :: ·) (Path.ends_lines points)

section

variable [Scalar R]

/-- Closing a curve adds nothing to its box. -/
@[simp]
theorem close_bounds (c : Curve R) : c.close.bounds = c.bounds := by
  rw [close]
  split
  · rfl
  · exact Path.bounds_append_close c.elements

/-- A polygon is covered by what covers its corners. -/
theorem covers_polyline (hlaw : Scalar.Ordered R) {points : List (Point R)}
    {area : Option (Rect R)} (hpoints : ∀ x ∈ points, Rect.Covers area (some (.ofPoint x))) :
    Rect.Covers area (polyline points).bounds := by
  cases points with
  | nil => exact Rect.Covers.none area
  | cons p points =>
    refine Path.covers_bounds hlaw fun box hbox => ?_
    have hbox : box ∈ some (.ofPoint p) :: Path.boxes (some p) (points.map .lineTo) := hbox
    rw [Path.boxes_lines, ← List.map_cons (f := fun x => some (Rect.ofPoint x))] at hbox
    obtain ⟨x, hx, rfl⟩ := List.mem_map.1 hbox
    exact hpoints x hx

end

theorem turnOnto_head (after : Path R) (p : Point R) (path : Path R) :
    ∃ rest, turnOnto after p path = .moveTo (Path.stop p path) :: rest := by
  induction path generalizing after p with
  | nil => exact ⟨after, rfl⟩
  | cons el path ih => exact ih _ _

/-- A curve that another one is joined to by a line covers both. -/
theorem Spans.covers_join [Scalar R] (hlaw : Scalar.Ordered R) {c d : Curve R} {p q r r' : Point R}
    (hc : c.Spans p q) (hd : d.Spans r r') :
    Rect.Covers (c.append d.reversed true).bounds c.bounds ∧
      Rect.Covers (c.append d.reversed true).bounds d.reversed.bounds := by
  obtain ⟨path, -, hreversed⟩ := hd.reversed_elements
  obtain ⟨rest, hrest⟩ := turnOnto_head [] r path
  rw [hrest] at hreversed
  have happend : c.append d.reversed true = ⟨c.elements ++ .lineTo (Path.stop r path) :: rest⟩ := by
    simp only [Curve.append, hreversed, hc.isEmpty, Bool.false_eq_true, if_false]
  rw [happend]
  refine ⟨Path.covers_append hlaw _ _, Path.covers_bounds hlaw fun box hbox => ?_⟩
  rw [hreversed] at hbox
  exact hc.covers_append hlaw hbox

/-! ## Curves that lead from one to the next -/

/-- Each curve starts where the one before it ended, from `p` to `q`. -/
def Lead (p : Point R) : List (Curve R) → Point R → Prop
  | [], q => p = q
  | c :: cs, q => ∃ r, c.Spans p r ∧ Lead r cs q

/-- One path through curves that lead from one to the next. -/
def glue : List (Curve R) → Path R
  | [] => []
  | c :: cs => c.elements ++ cs.flatMap fun c => c.elements.drop 1

theorem glue_append_singleton (cs : List (Curve R)) (c : Curve R) : glue (cs ++ [c]) =
    if cs.isEmpty then c.elements else glue cs ++ c.elements.drop 1 := by
  cases cs with
  | nil => simp [glue]
  | cons c' cs => simp [glue]

namespace Lead

variable {p q r : Point R} {cs : List (Curve R)} {c : Curve R}

theorem append_singleton (h : Lead p cs q) (hc : c.Spans q r) : Lead p (cs ++ [c]) r := by
  induction cs generalizing p with
  | nil =>
    obtain rfl : p = q := h
    exact ⟨r, hc, rfl⟩
  | cons c' cs ih =>
    obtain ⟨m, hc', hcs⟩ := h
    exact ⟨m, hc', ih hcs⟩

theorem spans_of_mem (h : Lead p cs q) (hc : c ∈ cs) : ∃ r s, c.Spans r s := by
  induction cs generalizing p with
  | nil => cases hc
  | cons c' cs ih =>
    obtain ⟨r, hc', hcs⟩ := h
    rcases List.mem_cons.1 hc with rfl | hc
    · exact ⟨p, r, hc'⟩
    · exact ih hcs hc

variable [Scalar R]

/-- The boxes of a curve that is glued behind others stay, but for the point where it starts. -/
theorem box_rest (h : Lead p cs q) (hc : c ∈ cs) {box : Option (Rect R)}
    (hbox : box ∈ Path.boxes none c.elements) :
    box ∈ Path.boxes (some p) (cs.flatMap fun c => c.elements.drop 1) ∨
      ∃ x, box = some (.ofPoint x) ∧
        (x = p ∨ x ∈ Path.ends (cs.flatMap fun c => c.elements.drop 1)) := by
  induction cs generalizing p with
  | nil => cases hc
  | cons c' cs ih =>
    obtain ⟨r, ⟨path, hpath, -, hstop⟩, hcs⟩ := h
    rw [List.flatMap_cons, hpath, List.drop_one, List.tail_cons, Path.boxes_append, hstop,
      Path.ends_append]
    rcases List.mem_cons.1 hc with rfl | hc
    · rw [hpath] at hbox
      rcases List.mem_cons.1 hbox with rfl | hbox
      · exact .inr ⟨p, rfl, .inl rfl⟩
      · exact .inl (List.mem_append_left _ hbox)
    · rcases ih hcs hc with hbox | ⟨x, hx, rfl | hends⟩
      · exact .inl (List.mem_append_right _ hbox)
      · rw [← hstop] at hx
        exact .inr ⟨_, hx, (Path.stop_mem p path).imp_right (List.mem_append_left _)⟩
      · exact .inr ⟨x, hx, .inr (List.mem_append_right _ hends)⟩

/-- What is glued covers each of the curves. -/
theorem covers_glue (hlaw : Scalar.Ordered R) (h : Lead p cs q) (hc : c ∈ cs) :
    Rect.Covers (Path.bounds (glue cs)) c.bounds := by
  -- the path is that of one move and of what the curves draw
  have hglue : ∃ cs', glue cs = .moveTo p :: cs' ∧ cs' = cs.flatMap fun c => c.elements.drop 1 := by
    cases cs with
    | nil => cases hc
    | cons c' cs =>
      obtain ⟨r, ⟨path, hpath, -, -⟩, -⟩ := h
      refine ⟨_, ?_, rfl⟩
      rw [glue, List.flatMap_cons, hpath]
      rfl
  obtain ⟨path, hglue, hpath⟩ := hglue
  refine Path.covers_bounds hlaw fun box hbox => ?_
  rcases h.box_rest hc hbox with hbox | ⟨x, rfl, hx⟩
  · refine Path.covers_box hlaw ?_
    rw [hglue, hpath]
    exact .tail _ hbox
  · refine Path.covers_point hlaw ?_
    rw [hglue, hpath]
    rcases hx with rfl | hx
    · exact .head _
    · exact .tail _ hx

end Lead

end Curve

end Freehand
