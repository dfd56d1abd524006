import Freehand.Proofs.Geometry.Span

/-!
# What a path draws

Each element of a path that neither moves nor closes draws one segment, from where the element
before it ended (`Path.segments`).  Straight lines draw segments between neighbouring points, and
cubic segments in a row draw themselves.

Drawn backwards, a path has as many elements, each turned, from the last to the first (`Path.back`).
It leads back to where the path started, and if nothing closes, it draws the same segments from
their ends (`Path.segments_back`) and is the path itself once it is drawn backwards again
(`Path.back_back`).
-/

namespace Freehand

variable {R : Type}

/-- The point of a segment at parameter `t`. -/
def Segment.eval [Scalar R] (s : Segment R) (t : R) : Point R :=
  match s with
  | line p0 p1 => p0.lerp p1 t
  | quadratic s => s.eval t
  | cubic s => s.eval t

namespace PathElement

/-- The segment that an element draws from `p`, unless it moves or closes. -/
def segment? (p : Point R) : PathElement R → Option (Segment R)
  | lineTo q => some (.line p q)
  | quadTo c q => some (.quadratic ⟨p, c, q⟩)
  | curveTo c1 c2 q => some (.cubic ⟨p, c1, c2, q⟩)
  | moveTo _ | close => none

/-- The element neither moves nor closes. -/
def draws : PathElement R → Bool
  | lineTo _ | quadTo _ _ | curveTo _ _ _ => true
  | moveTo _ | close => false

theorem isClose_of_draws {el : PathElement R} (h : el.draws = true) : el.isClose = false := by
  cases el with
  | close => cases h
  | moveTo p | lineTo p | quadTo c p | curveTo c1 c2 p => rfl

/-- An element that draws names the point that it ends at. -/
theorem endPoint?_of_draws {el : PathElement R} (h : el.draws = true) (p : Point R) :
    el.endPoint? = some (el.stop p) := by
  cases el with
  | close => cases h
  | moveTo q | lineTo q | quadTo c q | curveTo c1 c2 q => rfl

end PathElement

namespace Path

/-- The segments that a path draws from `p`. -/
def segments (p : Point R) : Path R → List (Segment R)
  | [] => []
  | el :: path => (el.segment? p).toList ++ segments (el.stop p) path

theorem segments_append (p : Point R) (path path' : Path R) :
    segments p (path ++ path') = segments p path ++ segments (stop p path) path' := by
  induction path generalizing p with
  | nil => rfl
  | cons el path ih => rw [List.cons_append, segments, ih, segments, List.append_assoc, stop_cons]

theorem draws_lines (points : List (Point R)) :
    ∀ el ∈ points.map PathElement.lineTo, el.draws = true := by
  intro el hel
  obtain ⟨x, -, rfl⟩ := List.mem_map.1 hel
  rfl

/-- Lines through points draw a segment to each of them. -/
theorem mem_segments_lines {p x : Point R} {points : List (Point R)} (hx : x ∈ points) :
    ∃ q, .line q x ∈ segments p (points.map .lineTo) := by
  induction points generalizing p with
  | nil => cases hx
  | cons y points ih =>
    rcases List.mem_cons.1 hx with rfl | hx
    · exact ⟨p, .head _⟩
    · obtain ⟨q, hq⟩ := ih (p := y) hx
      exact ⟨q, .tail _ hq⟩

end Path

theorem Cubic.draws_elements (segments : List (Cubic R)) :
    ∀ el ∈ segments.map element, el.draws = true := by
  intro el hel
  obtain ⟨s, -, rfl⟩ := List.mem_map.1 hel
  rfl

/-- Where segments lead does not depend on where they are drawn from. -/
theorem Cubic.stop_elements (p q : Point R) {segments : List (Cubic R)} (hne : segments ≠ []) :
    Path.stop p (segments.map element) = Path.stop q (segments.map element) := by
  cases segments with
  | nil => exact absurd rfl hne
  | cons s segments => rfl

namespace Curve

theorem isEmpty_of_elements {c : Curve R} {p : Point R} {path : Path R}
    (hpath : c.elements = .moveTo p :: path) : c.isEmpty = false := by
  rw [isEmpty, hpath]
  rfl

/-- Turned, an element that draws leads to where it started. -/
theorem turned_draws {el : PathElement R} (h : el.draws = true) (p : Point R) :
    (turned el p).draws = true ∧ (turned el p).endPoint? = some p := by
  cases el with
  | close | moveTo q => cases h
  | lineTo q | quadTo c q | curveTo c1 c2 q => exact ⟨rfl, rfl⟩

end Curve

/-! ## Drawn backwards -/

/-- The segment drawn from its end. -/
def Segment.reversed : Segment R → Segment R
  | line p0 p1 => .line p1 p0
  | quadratic s => .quadratic ⟨s.p2, s.p1, s.p0⟩
  | cubic s => .cubic s.reversed

/-- Turned, an element draws its segment from the end. -/
theorem PathElement.segment?_turned {el : PathElement R} (h : el.isClose = false) (p : Point R) :
    (Curve.turned el p).segment? (el.stop p) = (el.segment? p).map Segment.reversed := by
  cases el with
  | close => cases h
  | moveTo q | lineTo q | quadTo c q | curveTo c1 c2 q => rfl

/-- Turned twice, an element ends where it did. -/
theorem Curve.turned_turned {el : PathElement R} (h : el.isClose = false) (p : Point R) :
    turned (turned el p) (el.stop p) = el := by
  cases el with
  | close => cases h
  | moveTo q | lineTo q | quadTo c q | curveTo c1 c2 q => rfl

theorem Curve.isClose_turned (el : PathElement R) (p : Point R) :
    (turned el p).isClose = false := by
  cases el <;> rfl

namespace Path

/-- The elements of a path drawn from `p`, each turned, from the last to the first. -/
def back (p : Point R) : Path R → Path R
  | [] => []
  | el :: path => back (el.stop p) path ++ [Curve.turned el p]

theorem back_append (p : Point R) (path path' : Path R) :
    back p (path ++ path') = back (stop p path) path' ++ back p path := by
  induction path generalizing p with
  | nil => exact (List.append_nil _).symm
  | cons el path ih => rw [List.cons_append, back, ih, back, stop_cons, List.append_assoc]

theorem length_back (p : Point R) (path : Path R) : (back p path).length = path.length := by
  induction path generalizing p with
  | nil => rfl
  | cons el path ih => rw [back, List.length_append, ih, List.length_singleton, List.length_cons]

/-- Drawn backwards, a path leads back to where it started. -/
theorem stop_back (p : Point R) (path : Path R) : stop (stop p path) (back p path) = p := by
  cases path with
  | nil => rfl
  | cons el path => rw [back, stop_append, stop_cons, stop_nil, stop_turned]

theorem isClose_back (p : Point R) (path : Path R) : ∀ el ∈ back p path, el.isClose = false := by
  induction path generalizing p with
  | nil => exact List.forall_mem_nil _
  | cons el path ih =>
    exact List.forall_mem_append.2
      ⟨ih (el.stop p), List.forall_mem_singleton.2 (Curve.isClose_turned el p)⟩

theorem draws_back (p : Point R) {path : Path R} (h : ∀ el ∈ path, el.draws = true) :
    ∀ el ∈ back p path, el.draws = true := by
  induction path generalizing p with
  | nil => exact List.forall_mem_nil _
  | cons el path ih =>
    obtain ⟨hel, hpath⟩ := List.forall_mem_cons.1 h
    exact List.forall_mem_append.2
      ⟨ih (el.stop p) hpath, List.forall_mem_singleton.2 (Curve.turned_draws hel p).1⟩

section

variable {path : Path R} (h : ∀ el ∈ path, el.isClose = false)
include h

/-- Drawn backwards twice, a path is as it was. -/
theorem back_back (p : Point R) : back (stop p path) (back p path) = path := by
  induction path generalizing p with
  | nil => rfl
  | cons el path ih =>
    obtain ⟨hel, hpath⟩ := List.forall_mem_cons.1 h
    calc back (stop p (el :: path)) (back p (el :: path))
      _ = back (el.stop p) [Curve.turned el p] ++
          back (stop (el.stop p) path) (back (el.stop p) path) := by
        rw [back, back_append, stop_cons, stop_back]
      _ = Curve.turned (Curve.turned el p) (el.stop p) :: path := by rw [ih hpath]; rfl
      _ = el :: path := by rw [Curve.turned_turned hel]

/-- Drawn backwards, a path draws its segments from their ends, the last one first. -/
theorem segments_back (p : Point R) :
    segments (stop p path) (back p path) = ((segments p path).map Segment.reversed).reverse := by
  induction path generalizing p with
  | nil => rfl
  | cons el path ih =>
    obtain ⟨hel, hpath⟩ := List.forall_mem_cons.1 h
    rw [back, segments_append, stop_cons, ih hpath, stop_back, segments, segments, segments,
      PathElement.segment?_turned hel, List.map_append, List.reverse_append, List.append_nil]
    cases el.segment? p <;> rfl

end

end Path

namespace Curve

/-- A path is drawn backwards behind a move to its end. -/
theorem turnOnto_eq_back (after : Path R) (p : Point R) (path : Path R) :
    turnOnto after p path = .moveTo (Path.stop p path) :: (Path.back p path ++ after) := by
  induction path generalizing after p with
  | nil => rfl
  | cons el path ih =>
    rw [Path.back, List.append_assoc]
    exact ih (turned el p :: after) (el.stop p)

/-- Drawn backwards, a path that draws leads back to where it started. -/
theorem turnOnto_eq (after : Path R) (p : Point R) {path : Path R}
    (h : ∀ el ∈ path, el.draws = true) :
    ∃ back, turnOnto after p path = .moveTo (Path.stop p path) :: (back ++ after) ∧
      (∀ el ∈ back, el.draws = true) ∧ Path.stop (Path.stop p path) back = p ∧
      back.length = path.length :=
  ⟨Path.back p path, turnOnto_eq_back after p path, Path.draws_back p h, Path.stop_back p path,
    Path.length_back p path⟩

end Curve

end Freehand
