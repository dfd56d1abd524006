import Freehand.Curve
import Freehand.Proofs.Geometry.Cover

/-!
# What the bounding box of a path covers

The bounding box of a path is the union of the boxes of its elements, each drawn from where the one
before it ended (`Path.bounds_eq`).  So it covers every point that an element ends at, and a path
that goes on covers what it covered before.

Drawn backwards, a path covers the boxes of its turned elements (`Path.backBoxes`), and the same end
points.
-/

namespace Freehand

variable {R : Type}

/-! ## Segments cover their ends -/

section

variable [Scalar R]

@[simp]
theorem Rect.ofPoint_eq (p : Point R) : Rect.ofPoint p = ⟨p.x, p.y, p.x, p.y⟩ := by
  simp only [ofPoint, ofCorners, Scalar.min, Scalar.max, ite_self]

namespace Rect.Contains

variable {a b c : Rect R} (h : Scalar.Ordered R)
include h

theorem refl (a : Rect R) : a.Contains a :=
  ⟨h.le_refl _, h.le_refl _, h.le_refl _, h.le_refl _⟩

theorem trans (hab : a.Contains b) (hbc : b.Contains c) : a.Contains c :=
  ⟨h.le_trans _ _ _ hab.x0 hbc.x0, h.le_trans _ _ _ hab.y0 hbc.y0, h.le_trans _ _ _ hbc.x1 hab.x1,
    h.le_trans _ _ _ hbc.y1 hab.y1⟩

theorem insert (a : Rect R) (p : Point R) : (a.insert p).Contains a :=
  ⟨h.min_le_left _ _, h.min_le_left _ _, h.le_max_left _ _, h.le_max_left _ _⟩

theorem corner_right (p q : Point R) : (Rect.ofCorners p q).Contains (.ofPoint q) := by
  rw [ofPoint_eq]
  exact ⟨h.min_le_right _ _, h.min_le_right _ _, h.le_max_right _ _, h.le_max_right _ _⟩

/-- Points that are put in make a rectangle larger. -/
theorem foldl_insert {α : Type} (point : α → Point R) (as : List α) (a : Rect R) :
    (as.foldl (fun a x => a.insert (point x)) a).Contains a := by
  induction as generalizing a with
  | nil => exact refl h a
  | cons x as ih => exact (ih _).trans h (insert h a (point x))

end Rect.Contains

theorem Quadratic.bounds_contains_stop (h : Scalar.Ordered R) (s : Quadratic R) :
    s.bounds.Contains (.ofPoint s.p2) :=
  (Rect.Contains.foldl_insert h s.eval s.extrema _).trans h (Rect.Contains.corner_right h _ _)

theorem Cubic.bounds_contains_stop (h : Scalar.Ordered R) (s : Cubic R) :
    s.bounds.Contains (.ofPoint s.p3) :=
  (Rect.Contains.foldl_insert h s.eval s.extrema _).trans h (Rect.Contains.corner_right h _ _)

theorem Rect.Covers.some {a b : Rect R} (h : a.Contains b) :
    Rect.Covers (Option.some a) (Option.some b) := by
  intro _ hb
  cases hb
  exact ⟨a, rfl, h⟩

end

namespace PathElement

/-- Where a path is after the element, which was drawn from `p`. -/
def stop (p : Point R) (el : PathElement R) : Point R :=
  el.endPoint?.getD p

variable [Scalar R]

/-- An element that names an end covers it. -/
theorem covers_endPoint (h : Scalar.Ordered R) (current : Option (Point R)) {el : PathElement R}
    {p : Point R} (hp : el.endPoint? = some p) :
    Rect.Covers (el.bounds? current) (some (.ofPoint p)) := by
  cases el with
  | moveTo q | lineTo q =>
    cases hp
    exact .refl h _
  | quadTo c q =>
    cases hp
    cases current with
    | none => exact .refl h _
    | some start => exact .some (Quadratic.bounds_contains_stop h ⟨start, c, _⟩)
  | curveTo c1 c2 q =>
    cases hp
    cases current with
    | none => exact .refl h _
    | some start => exact .some (Cubic.bounds_contains_stop h ⟨start, c1, c2, _⟩)
  | close => cases hp

end PathElement

namespace Path

/-! ## The boxes of a path -/

/-- Where a path ends that is drawn from `p`. -/
def stop (p : Point R) (path : Path R) : Point R :=
  path.foldl PathElement.stop p

/-- The points that the elements of a path end at. -/
def ends (path : Path R) : List (Point R) :=
  path.filterMap PathElement.endPoint?

@[simp]
theorem stop_nil (p : Point R) : stop p [] = p :=
  rfl

@[simp]
theorem stop_cons (p : Point R) (el : PathElement R) (path : Path R) :
    stop p (el :: path) = stop (el.stop p) path :=
  rfl

theorem stop_append (p : Point R) (path path' : Path R) :
    stop p (path ++ path') = stop (stop p path) path' :=
  List.foldl_append ..

theorem ends_append (path path' : Path R) : ends (path ++ path') = ends path ++ ends path' :=
  List.filterMap_append

/-- A path ends where it starts or where one of its elements ends. -/
theorem stop_mem (p : Point R) (path : Path R) : stop p path = p ∨ stop p path ∈ ends path := by
  induction path generalizing p with
  | nil => exact .inl rfl
  | cons el path ih =>
    rw [stop_cons, PathElement.stop]
    cases hend : el.endPoint? with
    | none =>
      rw [ends, List.filterMap_cons_none hend]
      exact ih p
    | some q =>
      rw [ends, List.filterMap_cons_some hend]
      rcases ih q with hq | hq
      · exact .inr (List.mem_cons.2 (.inl hq))
      · exact .inr (List.mem_cons.2 (.inr hq))

variable [Scalar R]

/-- The boxes of the elements of a path that is drawn from `current`. -/
def boxes (current : Option (Point R)) : Path R → List (Option (Rect R))
  | [] => []
  | el :: path => el.bounds? current :: boxes (el.endPoint?.or current) path

@[simp]
theorem boxes_cons (p : Point R) (el : PathElement R) (path : Path R) :
    boxes (some p) (el :: path) = el.bounds? (some p) :: boxes (some (el.stop p)) path := by
  rw [boxes, PathElement.stop]
  cases el.endPoint? <;> rfl

theorem boxes_append (p : Point R) (path path' : Path R) :
    boxes (some p) (path ++ path') = boxes (some p) path ++ boxes (some (stop p path)) path' := by
  induction path generalizing p with
  | nil => rfl
  | cons el path ih =>
    rw [List.cons_append, boxes_cons, boxes_cons, ih, stop_cons, List.cons_append]

theorem boundsFrom_eq (current : Option (Point R)) (found : Option (Rect R)) (path : Path R) :
    boundsFrom current found path = (boxes current path).foldl Rect.join found := by
  induction path generalizing current found with
  | nil => rfl
  | cons el path ih => rw [boundsFrom, ih, boxes, List.foldl_cons]

/-- The bounding box of a path is the union of the boxes of its elements. -/
theorem bounds_eq (path : Path R) : bounds path = (boxes none path).foldl Rect.join none :=
  boundsFrom_eq none none path

variable {path path' : Path R} {area box : Option (Rect R)}

theorem covers_box (h : Scalar.Ordered R) (hbox : box ∈ boxes none path) :
    Rect.Covers (bounds path) box := by
  rw [bounds_eq]
  exact (Rect.Covers.foldl_join h id (boxes none path) none).2 box hbox

/-- What covers every element of a path covers its bounding box. -/
theorem covers_bounds (h : Scalar.Ordered R)
    (hboxes : ∀ box ∈ boxes none path, Rect.Covers area box) :
    Rect.Covers area (bounds path) := by
  rw [bounds_eq]
  have hfold : ∀ (bs : List (Option (Rect R))) (found : Option (Rect R)), Rect.Covers area found →
      (∀ box ∈ bs, Rect.Covers area box) → Rect.Covers area (bs.foldl Rect.join found) := by
    intro bs
    induction bs with
    | nil => exact fun found hfound _ => hfound
    | cons b bs ih =>
      intro found hfound hbs
      obtain ⟨hb, hbs⟩ := List.forall_mem_cons.1 hbs
      exact ih _ (hfound.join h hb) hbs
  exact hfold _ none (.none area) hboxes

theorem boxes_subset (current : Option (Point R)) (path path' : Path R) :
    boxes current path ⊆ boxes current (path ++ path') := by
  induction path generalizing current with
  | nil => exact List.nil_subset _
  | cons el path ih => exact List.cons_subset_cons _ (ih _)

/-- A path that goes on covers what it covered before. -/
theorem covers_append (h : Scalar.Ordered R) (path path' : Path R) :
    Rect.Covers (bounds (path ++ path')) (bounds path) :=
  covers_bounds h fun _ hbox => covers_box h (boxes_subset none path path' hbox)

/-- Closing a path adds nothing to its box. -/
theorem bounds_append_close (path : Path R) : bounds (path ++ [.close]) = bounds path := by
  have hboxes : ∀ current, boxes current (path ++ [.close]) = boxes current path ++ [none] := by
    induction path with
    | nil => exact fun _ => rfl
    | cons el path ih => exact fun _ => congrArg (_ :: ·) (ih _)
  rw [bounds_eq, bounds_eq, hboxes, List.foldl_append]
  generalize (boxes none path).foldl Rect.join none = box
  cases box <;> rfl

/-- Every end point lies in the box of an element. -/
theorem exists_box_of_mem_ends (h : Scalar.Ordered R) {p : Point R} (hp : p ∈ ends path)
    (current : Option (Point R)) :
    ∃ box ∈ boxes current path, Rect.Covers box (some (.ofPoint p)) := by
  induction path generalizing current with
  | nil => cases hp
  | cons el path ih =>
    rw [boxes]
    cases hend : el.endPoint? with
    | none =>
      rw [ends, List.filterMap_cons_none hend] at hp
      obtain ⟨box, hbox, hcovers⟩ := ih hp (Option.or none current)
      exact ⟨box, .tail _ hbox, hcovers⟩
    | some q =>
      rw [ends, List.filterMap_cons_some hend] at hp
      rcases List.mem_cons.1 hp with rfl | hp
      · exact ⟨_, .head _, el.covers_endPoint h current hend⟩
      · obtain ⟨box, hbox, hcovers⟩ := ih hp _
        exact ⟨box, .tail _ hbox, hcovers⟩

theorem covers_point (h : Scalar.Ordered R) {p : Point R} (hp : p ∈ ends path) :
    Rect.Covers (bounds path) (some (.ofPoint p)) := by
  obtain ⟨box, hbox, hcovers⟩ := exists_box_of_mem_ends h hp none
  exact (covers_box h hbox).trans h hcovers

/-! ## Backwards -/

/-- The boxes of the elements of a path from `p`, each drawn backwards. -/
def backBoxes (p : Point R) : Path R → List (Option (Rect R))
  | [] => []
  | el :: path => (Curve.turned el p).bounds? (some (el.stop p)) :: backBoxes (el.stop p) path

theorem backBoxes_append (p : Point R) (path path' : Path R) :
    backBoxes p (path ++ path') = backBoxes p path ++ backBoxes (stop p path) path' := by
  induction path generalizing p with
  | nil => rfl
  | cons el path ih =>
    rw [List.cons_append, backBoxes, backBoxes, ih, stop_cons, List.cons_append]

omit [Scalar R] in
@[simp]
theorem turned_endPoint? (el : PathElement R) (p : Point R) :
    (Curve.turned el p).endPoint? = some p := by
  cases el <;> rfl

omit [Scalar R] in
theorem stop_turned (el : PathElement R) (p q : Point R) : (Curve.turned el p).stop q = p := by
  rw [PathElement.stop, turned_endPoint?, Option.getD_some]

/-- A path drawn backwards has the boxes of its turned elements, and then those of what follows. -/
theorem boxes_turnOnto (after : Path R) (p : Point R) (path : Path R) :
    boxes none (Curve.turnOnto after p path) = some (.ofPoint (stop p path)) ::
      ((backBoxes p path).reverse ++ boxes (some p) after) := by
  induction path generalizing after p with
  | nil => rfl
  | cons el path ih =>
    calc boxes none (Curve.turnOnto after p (el :: path))
      _ = some (.ofPoint (stop (el.stop p) path)) :: ((backBoxes (el.stop p) path).reverse ++
          boxes (some (el.stop p)) (Curve.turned el p :: after)) := ih _ _
      _ = _ := by
        rw [boxes_cons, stop_turned, backBoxes, List.reverse_cons, List.append_assoc, stop_cons]
        rfl

omit [Scalar R] in
/-- A path drawn backwards ends at the same points. -/
theorem mem_ends_turnOnto {after : Path R} {p q : Point R}
    (hq : q = p ∨ q ∈ ends path ∨ q ∈ ends after) : q ∈ ends (Curve.turnOnto after p path) := by
  induction path generalizing after p with
  | nil =>
    show q ∈ p :: ends after
    rcases hq with rfl | hq | hq
    · exact .head _
    · cases hq
    · exact .tail _ hq
  | cons el path ih =>
    have hturned : ends (Curve.turned el p :: after) = p :: ends after :=
      List.filterMap_cons_some (turned_endPoint? el p)
    refine ih ?_
    rw [hturned, List.mem_cons]
    rcases hq with rfl | hq | hq
    · exact .inr (.inr (.inl rfl))
    · cases hend : el.endPoint? with
      | none =>
        rw [ends, List.filterMap_cons_none hend] at hq
        exact .inr (.inl hq)
      | some r =>
        rw [ends, List.filterMap_cons_some hend] at hq
        rcases List.mem_cons.1 hq with rfl | hq
        · exact .inl rfl
        · exact .inr (.inl hq)
    · exact .inr (.inr (.inr hq))

end Path

end Freehand
