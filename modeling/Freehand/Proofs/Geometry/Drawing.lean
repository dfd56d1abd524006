import Freehand.Proofs.Geometry.Trail
import Freehand.Proofs.Scalar.Binary64
import Freehand.Scalar.Binary64

/-!
# The box of a path and the box of its drawing

A pen that draws a path goes back to where the subpath began when it closes it, and draws the next
element from there (`Path.drawn`).  The bounding box of a path leaves closing elements out, and goes
on from the last point that the path named.

Either way is a *reading* of the path (`Path.Reads`): a straight line may start at any point seen
before, but a curve starts at the last named one.  The box of a path that starts by moving is the
union of the points it moves to and the boxes of what any reading draws (`Path.Reads.alike`).  So it
is the box of the drawing as long as no curve follows the closing of a subpath that ended elsewhere
than it began (`Path.Resumes`, `Path.bounds_alike`).

Areas are compared without regard to the sign of zero and to sides that are no numbers, which unions
ignore (`Rect.Encloses`).
-/

namespace Freehand

open Scalar (Alike AtLeast AtMost Ranked)

variable {R : Type} [Scalar R]

/-! ## Areas that enclose boxes -/

namespace Rect

/-- The sides are alike. -/
structure Alike (a b : Rect R) : Prop where
  x0 : Scalar.Alike a.x0 b.x0
  y0 : Scalar.Alike a.y0 b.y0
  x1 : Scalar.Alike a.x1 b.x1
  y1 : Scalar.Alike a.y1 b.y1

instance (a b : Rect R) : Decidable (a.Alike b) :=
  decidable_of_iff (Scalar.Alike a.x0 b.x0 ∧ Scalar.Alike a.y0 b.y0 ∧ Scalar.Alike a.x1 b.x1 ∧
      Scalar.Alike a.y1 b.y1)
    ⟨fun h => ⟨h.1, h.2.1, h.2.2.1, h.2.2.2⟩, fun h => ⟨h.x0, h.y0, h.x1, h.y1⟩⟩

instance : DecidableRel (Option.Rel (Rect.Alike (R := R)))
  | none, none => isTrue .none
  | none, some _ | some _, none => isFalse nofun
  | some a, some b =>
    decidable_of_iff (a.Alike b) ⟨.some, fun h => by cases h; assumption⟩

/-- No side of `b` that is a number is outside of `a`. -/
structure Spans (a b : Rect R) : Prop where
  x0 : AtMost a.x0 b.x0
  y0 : AtMost a.y0 b.y0
  x1 : AtLeast a.x1 b.x1
  y1 : AtLeast a.y1 b.y1

/-- The area is there and spans the box. -/
def Encloses (area : Option (Rect R)) (box : Rect R) : Prop :=
  ∃ a, area = some a ∧ a.Spans box

/-- The union of some boxes. -/
def unions (boxes : List (Rect R)) : Option (Rect R) :=
  (boxes.map some).foldl join none

namespace Spans

variable (hlaw : Ranked R) {a b c : Rect R}
include hlaw

theorem refl (a : Rect R) : a.Spans a :=
  ⟨.refl hlaw _, .refl hlaw _, .refl hlaw _, .refl hlaw _⟩

theorem trans (hab : a.Spans b) (hbc : b.Spans c) : a.Spans c :=
  ⟨hab.x0.trans hlaw hbc.x0, hab.y0.trans hlaw hbc.y0, hab.x1.trans hlaw hbc.x1,
    hab.y1.trans hlaw hbc.y1⟩

theorem alike (hab : a.Spans b) (hba : b.Spans a) : a.Alike b :=
  ⟨hab.x0.alike hlaw hba.x0, hab.y0.alike hlaw hba.y0, hab.x1.alike hlaw hba.x1,
    hab.y1.alike hlaw hba.y1⟩

theorem union_left (a b : Rect R) : (a.union b).Spans a :=
  ⟨.min_left hlaw _ _, .min_left hlaw _ _, .max_left hlaw _ _, .max_left hlaw _ _⟩

theorem union_right (a b : Rect R) : (a.union b).Spans b :=
  ⟨.min_right hlaw _ _, .min_right hlaw _ _, .max_right hlaw _ _, .max_right hlaw _ _⟩

theorem insert (a : Rect R) (p : Point R) : (a.insert p).Spans a :=
  ⟨.min_left hlaw _ _, .min_left hlaw _ _, .max_left hlaw _ _, .max_left hlaw _ _⟩

/-- Points that are put in make a rectangle larger. -/
theorem foldl_insert {α : Type} (point : α → Point R) (as : List α) (a : Rect R) :
    (as.foldl (fun a x => a.insert (point x)) a).Spans a := by
  induction as generalizing a with
  | nil => exact refl hlaw a
  | cons x as ih => exact (ih _).trans hlaw (insert hlaw a (point x))

omit hlaw in
theorem union (hb : a.Spans b) (hc : a.Spans c) : a.Spans (b.union c) :=
  ⟨hb.x0.min hc.x0, hb.y0.min hc.y0, hb.x1.max hc.x1, hb.y1.max hc.y1⟩

/-- A rectangle between two points spans what spans both of them. -/
theorem ofCorners_iff {p q : Point R} :
    a.Spans (.ofCorners p q) ↔ a.Spans (.ofPoint p) ∧ a.Spans (.ofPoint q) := by
  have hunion : Rect.ofCorners p q = (Rect.ofPoint p).union (.ofPoint q) := by
    rw [ofPoint_eq, ofPoint_eq]
    rfl
  rw [hunion]
  exact ⟨fun h => ⟨h.trans hlaw (union_left hlaw _ _), h.trans hlaw (union_right hlaw _ _)⟩,
    fun ⟨hp, hq⟩ => hp.union hq⟩

end Spans

namespace Encloses

variable {area area' : Option (Rect R)} {a b box : Rect R}

theorem some_iff : Encloses (some a) box ↔ a.Spans box := by
  constructor
  · rintro ⟨_, ⟨⟩, h⟩
    exact h
  · exact fun h => ⟨a, rfl, h⟩

variable (hlaw : Ranked R)
include hlaw

theorem trans (h : Encloses area a) (hab : a.Spans b) : Encloses area b := by
  obtain ⟨r, hr, hra⟩ := h
  exact ⟨r, hr, hra.trans hlaw hab⟩

theorem join_left (h : Encloses area box) (b : Option (Rect R)) : Encloses (join area b) box := by
  obtain ⟨a, rfl, ha⟩ := h
  cases b with
  | none => exact ⟨a, rfl, ha⟩
  | some b => exact ⟨a.union b, rfl, (Spans.union_left hlaw a b).trans hlaw ha⟩

theorem join_right (area : Option (Rect R)) (b : Rect R) :
    Encloses (join area (some b)) b := by
  cases area with
  | none => exact ⟨b, rfl, .refl hlaw b⟩
  | some a => exact ⟨a.union b, rfl, .union_right hlaw a b⟩

omit hlaw in
/-- An area that encloses two boxes encloses their union. -/
theorem union (ha : Encloses area a) (hb : Encloses area b) : Encloses area (a.union b) := by
  obtain ⟨r, rfl, hra⟩ := ha
  exact ⟨r, rfl, hra.union (some_iff.1 hb)⟩

theorem ofCorners_iff {p q : Point R} :
    Encloses area (.ofCorners p q) ↔ Encloses area (.ofPoint p) ∧ Encloses area (.ofPoint q) := by
  constructor
  · rintro ⟨a, rfl, ha⟩
    obtain ⟨hp, hq⟩ := (Spans.ofCorners_iff hlaw).1 ha
    exact ⟨⟨a, rfl, hp⟩, ⟨a, rfl, hq⟩⟩
  · rintro ⟨⟨a, rfl, hp⟩, hq⟩
    exact ⟨a, rfl, (Spans.ofCorners_iff hlaw).2 ⟨hp, some_iff.1 hq⟩⟩

/-- Areas that enclose each other are alike, and one is there if the other is. -/
theorem alike (h : ∀ b, area' = some b → Encloses area b)
    (h' : ∀ a, area = some a → Encloses area' a) : Option.Rel Rect.Alike area area' := by
  cases area with
  | none =>
    cases area' with
    | none => exact .none
    | some b =>
      obtain ⟨a, ha, -⟩ := h b rfl
      cases ha
  | some a =>
    obtain ⟨b, rfl, hba⟩ := h' a rfl
    exact .some ((some_iff.1 (h b rfl)).alike hlaw hba)

/-! ### Unions -/

/-- What is joined one after the other is enclosed in the end. -/
theorem foldl_join {boxes : List (Option (Rect R))} :
    ∀ {area : Option (Rect R)},
      (∀ box, area = some box ∨ some box ∈ boxes → Encloses (boxes.foldl join area) box) := by
  induction boxes with
  | nil =>
    rintro area box (rfl | hbox)
    · exact ⟨box, rfl, .refl hlaw box⟩
    · cases hbox
  | cons b boxes ih =>
    have hjoined : ∀ {area : Option (Rect R)} {box}, Encloses (join area b) box →
        Encloses (boxes.foldl join (join area b)) box := by
      rintro area box ⟨r, hr, hbox⟩
      exact (ih r (.inl hr)).trans hlaw hbox
    rintro area box (rfl | hbox)
    · exact hjoined (join_left hlaw ⟨box, rfl, .refl hlaw box⟩ b)
    · rcases List.mem_cons.1 hbox with rfl | hbox
      · exact hjoined (join_right hlaw area box)
      · exact ih box (.inr hbox)

omit hlaw in
/-- An area encloses what is joined from boxes that it encloses. -/
theorem of_foldl_join {boxes : List (Option (Rect R))} :
    ∀ {found : Option (Rect R)}, (∀ box, found = some box ∨ some box ∈ boxes →
      Encloses area box) → ∀ box, boxes.foldl join found = some box → Encloses area box := by
  induction boxes with
  | nil => exact fun h box hbox => h box (.inl hbox)
  | cons b boxes ih =>
    intro found h
    refine ih fun box hbox => ?_
    rcases hbox with hbox | hbox
    · cases found with
      | none =>
        cases b with
        | none => cases hbox
        | some b => exact h box (.inr (hbox ▸ List.mem_cons_self))
      | some a =>
        cases b with
        | none => exact h box (.inl hbox)
        | some b =>
          cases hbox
          exact (h a (.inl rfl)).union (h b (.inr List.mem_cons_self))
    · exact h box (.inr (List.mem_cons_of_mem b hbox))

end Encloses

end Rect

theorem Quadratic.spans_ends (hlaw : Ranked R) (s : Quadratic R) :
    s.bounds.Spans (.ofPoint s.p0) ∧ s.bounds.Spans (.ofPoint s.p2) :=
  (Rect.Spans.ofCorners_iff hlaw).1 (Rect.Spans.foldl_insert hlaw s.eval s.extrema _)

theorem Cubic.spans_ends (hlaw : Ranked R) (s : Cubic R) :
    s.bounds.Spans (.ofPoint s.p0) ∧ s.bounds.Spans (.ofPoint s.p3) :=
  (Rect.Spans.ofCorners_iff hlaw).1 (Rect.Spans.foldl_insert hlaw s.eval s.extrema _)

/-! ## Drawings -/

/-- The bounding box of a segment. -/
def Segment.bounds : Segment R → Rect R
  | line p0 p1 => .ofCorners p0 p1
  | quadratic s => s.bounds
  | cubic s => s.bounds

/-- The point that an element moves to. -/
def PathElement.move? : PathElement R → Option (Point R)
  | moveTo p => some p
  | _ => none

namespace Path

/-- The points that a path moves to. -/
def moves (path : Path R) : List (Point R) :=
  path.filterMap PathElement.move?

/-- The segments that a pen draws which is at `pen`, in a subpath that began at `start`.  Closing
draws a line back to the start, unless the pen is there, and the next segment goes on from there. -/
def drawn (start pen : Point R) : Path R → List (Segment R)
  | [] => []
  | .moveTo p :: path => drawn p p path
  | .lineTo p :: path => .line pen p :: drawn start p path
  | .quadTo c p :: path => .quadratic ⟨pen, c, p⟩ :: drawn start p path
  | .curveTo c1 c2 p :: path => .cubic ⟨pen, c1, c2, p⟩ :: drawn start p path
  | .close :: path =>
    if pen == start then drawn start pen path else .line pen start :: drawn start start path

/-- The boxes of the points that a path moves to and of some segments. -/
def extents (path : Path R) (segments : List (Segment R)) : List (Rect R) :=
  path.moves.map .ofPoint ++ segments.map Segment.bounds

/-- Wherever a path curves, the pen that draws it is at the last point that the path named. -/
def Resumes (start pen last : Point R) : Path R → Prop
  | [] => True
  | .moveTo p :: path => Resumes p p p path
  | .lineTo p :: path => Resumes start p p path
  | .quadTo _ p :: path | .curveTo _ _ p :: path => pen = last ∧ Resumes start p p path
  | .close :: path => Resumes start (if pen == start then pen else start) last path

/-- The segments may be read off the path, where `pen` is where straight lines go on and `last` is
where curves go on.  Closing a subpath may draw a line, or nothing. -/
inductive Reads : Point R → Point R → Point R → Path R → List (Segment R) → Prop
  | nil {start pen last} : Reads start pen last [] []
  | move {start pen last p path segments} :
    Reads p p p path segments →
    Reads start pen last (.moveTo p :: path) segments
  | line {start pen last p path segments} :
    Reads start p p path segments →
    Reads start pen last (.lineTo p :: path) (.line pen p :: segments)
  | quad {start last c p path segments} :
    Reads start p p path segments →
    Reads start last last (.quadTo c p :: path) (.quadratic ⟨last, c, p⟩ :: segments)
  | curve {start last c1 c2 p path segments} :
    Reads start p p path segments →
    Reads start last last (.curveTo c1 c2 p :: path) (.cubic ⟨last, c1, c2, p⟩ :: segments)
  | stay {start pen last path segments} :
    Reads start pen last path segments →
    Reads start pen last (.close :: path) segments
  | back {start pen last path segments} :
    Reads start start last path segments →
    Reads start pen last (.close :: path) (.line pen start :: segments)

variable {start pen last p : Point R} {path : Path R} {segments : List (Segment R)}

omit [Scalar R] in
/-- Leaving out what closes is a reading. -/
theorem reads_segments (start p : Point R) (path : Path R) :
    Reads start p p path (path.segments p) := by
  induction path generalizing start p with
  | nil => exact .nil
  | cons el path ih =>
    cases el with
    | moveTo q => exact .move (ih q q)
    | lineTo q => exact .line (ih start q)
    | quadTo c q => exact .quad (ih start q)
    | curveTo c1 c2 q => exact .curve (ih start q)
    | close => exact .stay (ih start p)

/-- The drawing is a reading if the curves of the path resume where it is. -/
theorem reads_drawn (h : Resumes start pen last path) :
    Reads start pen last path (drawn start pen path) := by
  induction path generalizing start pen last with
  | nil => exact .nil
  | cons el path ih =>
    cases el with
    | moveTo q => exact .move (ih h)
    | lineTo q => exact .line (ih h)
    | quadTo c q =>
      obtain ⟨rfl, h⟩ := h
      exact .quad (ih h)
    | curveTo c1 c2 q =>
      obtain ⟨rfl, h⟩ := h
      exact .curve (ih h)
    | close =>
      rw [Resumes] at h
      rw [drawn]
      split
      next hpen => exact .stay (ih (by rwa [if_pos hpen] at h))
      next hpen => exact .back (ih (by rwa [if_neg hpen] at h))

/-! ## Boxes of readings -/

theorem forall_extents_move {P : Rect R → Prop} :
    (∀ box ∈ extents (.moveTo p :: path) segments, P box) ↔
      P (.ofPoint p) ∧ ∀ box ∈ extents path segments, P box :=
  List.forall_mem_cons

theorem forall_extents_segment {P : Rect R → Prop} (s : Segment R) :
    (∀ box ∈ extents path (s :: segments), P box) ↔
      P s.bounds ∧ ∀ box ∈ extents path segments, P box := by
  simp only [extents, List.map_cons, List.forall_mem_append, List.forall_mem_cons]
  exact and_left_comm

omit [Scalar R] in
theorem forall_boxes {P : Rect R → Prop} {b : Rect R} {boxes : List (Option (Rect R))} :
    (∀ box, some box ∈ some b :: boxes → P box) ↔ P b ∧ ∀ box, some box ∈ boxes → P box := by
  simp only [List.mem_cons, Option.some.injEq, forall_eq_or_imp]

namespace Reads

variable {area : Option (Rect R)} (hlaw : Ranked R)
include hlaw

/-- What encloses the pen and the start of the subpath encloses the elements of a path if and only
if it encloses the points that the path moves to and the segments of any reading. -/
theorem encloses_iff (h : Reads start pen last path segments)
    (hstart : Rect.Encloses area (.ofPoint start)) (hpen : Rect.Encloses area (.ofPoint pen)) :
    (∀ box, some box ∈ boxes (some last) path → Rect.Encloses area box) ↔
      ∀ box ∈ extents path segments, Rect.Encloses area box := by
  induction h with
  | nil => exact ⟨fun _ _ => nofun, fun _ _ => nofun⟩
  | @move start pen last p path segments h ih =>
    rw [boxes_cons, forall_extents_move]
    exact forall_boxes.trans (and_congr_right fun hp => ih hp hp)
  | @line start pen last p path segments h ih =>
    have hline : Rect.Encloses area (Segment.line pen p).bounds ↔
        Rect.Encloses area (.ofPoint p) :=
      (Rect.Encloses.ofCorners_iff hlaw).trans (and_iff_right hpen)
    rw [boxes_cons]
    refine forall_boxes.trans ?_
    show _ ↔ ∀ box ∈ extents path (.line pen p :: segments), _
    rw [forall_extents_segment, hline]
    exact and_congr_right fun hp => ih hstart hp
  | @quad start last c p path segments h ih =>
    rw [boxes_cons]
    refine forall_boxes.trans ?_
    show _ ↔ ∀ box ∈ extents path (.quadratic ⟨last, c, p⟩ :: segments), _
    rw [forall_extents_segment]
    exact and_congr_right fun hs =>
      ih hstart (hs.trans hlaw (Quadratic.spans_ends hlaw ⟨last, c, p⟩).2)
  | @curve start last c1 c2 p path segments h ih =>
    rw [boxes_cons]
    refine forall_boxes.trans ?_
    show _ ↔ ∀ box ∈ extents path (.cubic ⟨last, c1, c2, p⟩ :: segments), _
    rw [forall_extents_segment]
    exact and_congr_right fun hs =>
      ih hstart (hs.trans hlaw (Cubic.spans_ends hlaw ⟨last, c1, c2, p⟩).2)
  | @stay start pen last path segments h ih =>
    rw [boxes_cons]
    refine Iff.trans ?_ (ih hstart hpen)
    exact forall_congr' fun box => imp_congr_left (List.mem_cons.trans (or_iff_right nofun))
  | @back start pen last path segments h ih =>
    have hback : Rect.Encloses area (Segment.line pen start).bounds :=
      (Rect.Encloses.ofCorners_iff hlaw).2 ⟨hpen, hstart⟩
    rw [boxes_cons]
    show _ ↔ ∀ box ∈ extents path (.line pen start :: segments), _
    rw [forall_extents_segment, and_iff_right hback]
    refine Iff.trans ?_ (ih hstart hstart)
    exact forall_congr' fun box => imp_congr_left (List.mem_cons.trans (or_iff_right nofun))

/-- The bounding box of a path that starts by moving is the union of the points that it moves to and
the boxes of the segments of any reading. -/
theorem alike (h : Reads p p p path segments) :
    Option.Rel Rect.Alike (bounds (.moveTo p :: path))
      (Rect.unions (extents (.moveTo p :: path) segments)) := by
  have hboxes : boxes none (.moveTo p :: path) = some (.ofPoint p) :: boxes (some p) path := rfl
  have hiff : ∀ {area : Option (Rect R)},
      (∀ box, some box ∈ boxes none (.moveTo p :: path) → Rect.Encloses area box) ↔
        ∀ box ∈ extents (.moveTo p :: path) segments, Rect.Encloses area box := by
    intro area
    rw [hboxes, forall_boxes, forall_extents_move]
    exact and_congr_right fun hp => h.encloses_iff hlaw hp hp
  rw [bounds_eq, Rect.unions]
  refine Rect.Encloses.alike hlaw (Rect.Encloses.of_foldl_join fun box hbox => ?_)
    (Rect.Encloses.of_foldl_join fun box hbox => ?_)
  · obtain ⟨box, hbox, ⟨⟩⟩ := List.mem_map.1 (hbox.resolve_left nofun)
    exact hiff.1 (fun box hbox => Rect.Encloses.foldl_join hlaw box (.inr hbox)) box hbox
  · refine hiff.2 (fun box hbox => ?_) box (hbox.resolve_left nofun)
    exact Rect.Encloses.foldl_join hlaw box (.inr (List.mem_map_of_mem hbox))

end Reads

/-- The bounding box of a path that starts by moving is the union of the points that it moves to and
the boxes of the segments between the points that it names, which leave out what closes.  It is the
union of those points and the boxes of what a pen draws, if the pen is at the last point named
wherever the path curves. -/
theorem bounds_alike (hlaw : Ranked R) (p : Point R) (path : Path R) :
    Option.Rel Rect.Alike (bounds (.moveTo p :: path))
        (Rect.unions (extents (.moveTo p :: path) (path.segments p))) ∧
      (Resumes p p p path → Option.Rel Rect.Alike (bounds (.moveTo p :: path))
        (Rect.unions (extents (.moveTo p :: path) (drawn p p path)))) :=
  ⟨(reads_segments p p path).alike hlaw, fun h => (reads_drawn h).alike hlaw⟩

/-- A path that curves on after it went back to where it began and closed. -/
def petals : Path Float :=
  [.lineTo ⟨8, 0⟩, .lineTo ⟨0, 0⟩, .close, .quadTo ⟨8, -8⟩ ⟨0, 0⟩, .close]

theorem bounds_alike_petals :
    Resumes ⟨0, 0⟩ ⟨0, 0⟩ ⟨0, 0⟩ petals ∧
      Option.Rel Rect.Alike (bounds (.moveTo ⟨0, 0⟩ :: petals))
        (Rect.unions (extents (.moveTo ⟨0, 0⟩ :: petals) (drawn ⟨0, 0⟩ ⟨0, 0⟩ petals))) := by
  have hresumes : Resumes ⟨0, 0⟩ ⟨0, 0⟩ ⟨0, 0⟩ petals := ⟨ite_self _, trivial⟩
  exact ⟨hresumes, (bounds_alike Binary64.ranked ⟨0, 0⟩ petals).2 hresumes⟩

/-- A path that curves on after it closed elsewhere.  A pen draws the curve from the origin, and the
box has it start at the end of the line. -/
def spur : Path Float :=
  [.lineTo ⟨0, 8⟩, .close, .quadTo ⟨8, -8⟩ ⟨0, 0⟩]

/-- The box of a path is not always that of its drawing. -/
theorem not_bounds_alike :
    ¬∀ (p : Point Float) (path : Path Float), Option.Rel Rect.Alike (bounds (.moveTo p :: path))
      (Rect.unions (extents (.moveTo p :: path) (drawn p p path))) := by
  intro h
  exact absurd (h ⟨0, 0⟩ spur) (by decide +kernel)

end Path

end Freehand
