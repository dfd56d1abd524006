import Freehand.Proofs.Curve.Building
import Freehand.Proofs.Geometry.Trail
import Freehand.Proofs.Scalar.Integers

/-!
# Curves drawn backwards

Without closing elements, drawing a curve backwards undoes itself, exchanges the ends and draws the
same segments from their ends (`Curve.Unbroken`).  Curves that are joined are drawn backwards one by
one in opposite order (`Curve.Unbroken.reversed_append`): the element between them, a line or a
move, leads to the start of the second, and turned to the end of the first.

Joining itself is associative for any curves, with the empty one as unit.  Closing elements are left
out of a curve before it is drawn backwards (`Curve.reversed_opened`), and of the others none is
lost.
-/

namespace Freehand

variable {R : Type}

namespace Curve

/-! ## Joining -/

/-- What the first element of a curve becomes behind another curve: a move becomes a line if the
curves are connected. -/
def bridge (connect : Bool) : PathElement R → PathElement R
  | .moveTo p => if connect then .lineTo p else .moveTo p
  | el => el

theorem stop_bridge (connect : Bool) (p q : Point R) :
    (bridge connect (.moveTo p)).stop q = p := by
  cases connect <;> rfl

/-- Turned, the element between two curves leads to the end of the first. -/
theorem turned_bridge (connect : Bool) (p q : Point R) :
    turned (bridge connect (.moveTo p)) q = bridge connect (.moveTo q) := by
  cases connect <;> rfl

theorem isClose_bridge (connect : Bool) (p : Point R) :
    (bridge connect (.moveTo p)).isClose = false := by
  cases connect <;> rfl

theorem append_mk {c : Curve R} (hne : c.isEmpty = false) (el : PathElement R) (path : Path R)
    (connect : Bool) :
    c.append ⟨el :: path⟩ connect = ⟨c.elements ++ bridge connect el :: path⟩ := by
  simp only [append, hne, Bool.false_eq_true, if_false]
  cases connect <;> cases el <;> rfl

theorem append_empty (c : Curve R) (connect : Bool) : c.append .empty connect = c :=
  rfl

theorem empty_append (c : Curve R) (connect : Bool) : empty.append c connect = c := by
  rcases c with ⟨_ | ⟨el, path⟩⟩ <;> rfl

/-- Curves can be appended in any order of the brackets. -/
theorem append_assoc (a b c : Curve R) (connect : Bool) :
    (a.append b connect).append c connect = a.append (b.append c connect) connect := by
  rcases c with ⟨_ | ⟨el, path⟩⟩
  · rfl
  rcases b with ⟨_ | ⟨el', path'⟩⟩
  · exact congrArg (a.append · connect) (empty_append _ connect).symm
  rcases a with ⟨_ | ⟨el'', path''⟩⟩
  · exact (congrArg (append · _ connect) (empty_append _ connect)).trans
      (empty_append _ connect).symm
  · have hne : isEmpty (⟨el'' :: path''⟩ : Curve R) = false := rfl
    have hne' : isEmpty (⟨el'' :: path'' ++ bridge connect el' :: path'⟩ : Curve R) = false := rfl
    rw [append_mk hne, append_mk hne', append_mk rfl]
    show _ = append _ ⟨el' :: (path' ++ bridge connect el :: path)⟩ connect
    rw [append_mk hne, List.append_assoc]
    rfl

/-- A line that connects two curves takes the place of the move that it leads over. -/
theorem length_append (a b : Curve R) (connect : Bool) :
    (a.append b connect).length = a.length + b.length := by
  rcases b with ⟨_ | ⟨el, path⟩⟩
  · rfl
  rcases a with ⟨_ | ⟨el', path'⟩⟩
  · rw [show (⟨[]⟩ : Curve R) = .empty from rfl, empty_append]
    exact (Nat.zero_add _).symm
  · rw [append_mk rfl]
    exact List.length_append

/-! ## Curves in which nothing closes -/

/-- The segments that a curve draws. -/
def segments (c : Curve R) : List (Segment R) :=
  match c.firstPoint? with
  | some p => Path.segments p c.elements
  | none => []

/-- Drawn backwards, the elements change their places and their ends. -/
theorem reversed_mk (p : Point R) {path : Path R} (hopen : ∀ el ∈ path, el.isClose = false) :
    reversed ⟨.moveTo p :: path⟩ = ⟨.moveTo (Path.stop p path) :: Path.back p path⟩ := by
  have hfilter : (PathElement.moveTo p :: path).filter (fun el => !el.isClose) =
      .moveTo p :: path := by
    refine List.filter_eq_self.2 (List.forall_mem_cons.2 ⟨rfl, fun el hel => ?_⟩)
    rw [hopen el hel]
    rfl
  have hturned := turnOnto_eq_back [] p path
  rw [List.append_nil] at hturned
  rw [reversed, hfilter, ← hturned]
  rfl

/-- Drawn backwards, a curve spans the same points in opposite order. -/
theorem Spans.reversed {c : Curve R} {p q : Point R} (h : c.Spans p q) : c.reversed.Spans q p := by
  obtain ⟨path, hpath, hopen, rfl⟩ := h
  obtain rfl : c = ⟨.moveTo p :: path⟩ := congrArg Curve.mk hpath
  rw [reversed_mk p hopen]
  exact ⟨Path.back p path, rfl, Path.isClose_back p path, Path.stop_back p path⟩

theorem Spans.firstPoint? {c : Curve R} {p q : Point R} (h : c.Spans p q) :
    c.firstPoint? = some p := by
  obtain ⟨path, hpath, -⟩ := h
  rw [Curve.firstPoint?, hpath]
  rfl

namespace Unbroken

variable {a b c : Curve R}

/-- Backwards and backwards again is forwards. -/
theorem reversed_reversed (h : c.Unbroken) : c.reversed.reversed = c := by
  rcases h with rfl | ⟨p, q, path, hpath, hopen, -⟩
  · rfl
  · obtain rfl : c = ⟨.moveTo p :: path⟩ := congrArg Curve.mk hpath
    rw [reversed_mk p hopen, reversed_mk _ (Path.isClose_back p path), Path.stop_back,
      Path.back_back hopen]

theorem length_reversed (h : c.Unbroken) : c.reversed.length = c.length := by
  rcases h with rfl | ⟨p, q, path, hpath, hopen, -⟩
  · rfl
  · obtain rfl : c = ⟨.moveTo p :: path⟩ := congrArg Curve.mk hpath
    rw [reversed_mk p hopen]
    exact congrArg (· + 1) (Path.length_back p path)

theorem firstPoint?_reversed (h : c.Unbroken) : c.reversed.firstPoint? = c.currentPoint? := by
  rcases h with rfl | ⟨p, q, hspans⟩
  · rfl
  · rw [hspans.reversed.firstPoint?, hspans.currentPoint?]

theorem currentPoint?_reversed (h : c.Unbroken) : c.reversed.currentPoint? = c.firstPoint? := by
  rcases h with rfl | ⟨p, q, hspans⟩
  · rfl
  · rw [hspans.reversed.currentPoint?, hspans.firstPoint?]

/-- Each segment is drawn backwards, the last one first. -/
theorem segments_reversed (h : c.Unbroken) :
    c.reversed.segments = (c.segments.map Segment.reversed).reverse := by
  rcases h with rfl | ⟨p, q, path, hpath, hopen, -⟩
  · rfl
  · obtain rfl : c = ⟨.moveTo p :: path⟩ := congrArg Curve.mk hpath
    rw [reversed_mk p hopen]
    exact Path.segments_back hopen p

/-- Curves that are joined are drawn backwards in opposite order. -/
theorem reversed_append (ha : a.Unbroken) (hb : b.Unbroken) (connect : Bool) :
    (a.append b connect).reversed = b.reversed.append a.reversed connect := by
  rcases hb with rfl | ⟨r, s, path', hpath', hopen', -⟩
  · exact (empty_append a.reversed connect).symm
  rcases ha with rfl | ⟨p, q, path, hpath, hopen, -⟩
  · exact congrArg Curve.reversed (empty_append b connect)
  obtain rfl : a = ⟨.moveTo p :: path⟩ := congrArg Curve.mk hpath
  obtain rfl : b = ⟨.moveTo r :: path'⟩ := congrArg Curve.mk hpath'
  have hjoined : ∀ el ∈ path ++ bridge connect (.moveTo r) :: path', el.isClose = false :=
    List.forall_mem_append.2 ⟨hopen, List.forall_mem_cons.2 ⟨isClose_bridge connect r, hopen'⟩⟩
  calc (append ⟨.moveTo p :: path⟩ ⟨.moveTo r :: path'⟩ connect).reversed
    _ = reversed ⟨.moveTo p :: (path ++ bridge connect (.moveTo r) :: path')⟩ := by
      rw [append_mk rfl]
      rfl
    _ = ⟨.moveTo (Path.stop r path') :: (Path.back r path' ++
          bridge connect (.moveTo (Path.stop p path)) :: Path.back p path)⟩ := by
      rw [reversed_mk p hjoined, Path.back_append, Path.back, Path.stop_append, Path.stop_cons,
        stop_bridge, turned_bridge, List.append_assoc]
      rfl
    _ = (reversed ⟨.moveTo r :: path'⟩).append (reversed ⟨.moveTo p :: path⟩) connect := by
      rw [reversed_mk r hopen', reversed_mk p hopen, append_mk rfl]
      rfl

end Unbroken

/-! ## Closing elements -/

/-- The curve without its closing elements. -/
def opened (c : Curve R) : Curve R :=
  ⟨c.elements.filter fun el => !el.isClose⟩

theorem reversed_opened (c : Curve R) : c.opened.reversed = c.reversed := by
  simp only [reversed, opened, List.filter_filter, Bool.and_self]

theorem Headed.unbroken_opened {c : Curve R} (h : c.Headed) : c.opened.Unbroken := by
  refine unbroken ?_ fun el hel => by simpa using (List.mem_filter.1 hel).2
  rcases h with rfl | ⟨p, path, hpath⟩
  · exact headed_empty
  · exact .inr ⟨p, path.filter fun el => !el.isClose, by rw [opened, hpath]; rfl⟩

/-! ## Built curves -/

namespace Built

variable [Scalar R] {connected : Bool} {a b : Curve R}

/-- Drawing a built curve backwards, in which nothing closes, undoes itself, keeps the number of
elements, exchanges the ends and draws the segments from their ends in opposite order.  Joined
curves are drawn backwards in opposite order and joined likewise, and joining by lines is
associative, has the empty curve as unit and adds numbers of elements.  Of a curve with closing
elements all others are kept. -/
theorem reversal (ha : a.Built connected) (hb : b.Built connected)
    (haopen : ∀ el ∈ a.elements, el.isClose = false)
    (hbopen : ∀ el ∈ b.elements, el.isClose = false) :
    a.reversed.reversed = a ∧
    a.reversed.length = a.length ∧
    a.reversed.firstPoint? = a.currentPoint? ∧
    a.reversed.currentPoint? = a.firstPoint? ∧
    a.reversed.segments = (a.segments.map Segment.reversed).reverse ∧
    (∀ connect, (a.append b connect).reversed = b.reversed.append a.reversed connect) ∧
    (∀ c : Curve R, (a.append b true).append c true = a.append (b.append c true) true) ∧
    a.append .empty true = a ∧
    Curve.empty.append a true = a ∧
    (a.append b true).length = a.length + b.length ∧
    ∀ c : Curve R, c.Built connected →
      c.reversed.length = (c.elements.filter fun el => !el.isClose).length := by
  have hua : a.Unbroken := ha.unbroken haopen
  have hub : b.Unbroken := hb.unbroken hbopen
  refine ⟨hua.reversed_reversed, hua.length_reversed, hua.firstPoint?_reversed,
    hua.currentPoint?_reversed, hua.segments_reversed, hua.reversed_append hub,
    fun c => append_assoc a b c true, append_empty a true, empty_append a true,
    length_append a b true, fun c hc => ?_⟩
  rw [← reversed_opened]
  exact hc.headed.unbroken_opened.length_reversed

end Built

/-- A curve of all kinds of segments. -/
def ribbon : Curve Int :=
  (((moveTo ⟨0, 0⟩).pushSegment (.line ⟨0, 0⟩ ⟨4, 0⟩)).pushSegment
    (.quadratic ⟨⟨4, 0⟩, ⟨6, 0⟩, ⟨6, 2⟩⟩)).pushSegment (.cubic ⟨⟨6, 2⟩, ⟨6, 4⟩, ⟨4, 6⟩, ⟨2, 6⟩⟩)

/-- Two subpaths. -/
def dashes : Curve Int :=
  (polyline [⟨8, 0⟩, ⟨9, 0⟩]).append (polyline [⟨8, 1⟩, ⟨9, 1⟩]) false

/-- A ribbon with a segment of each kind, and two dashes that are appended without a line. -/
theorem reversal_ribbon :
    (∀ el ∈ ribbon.elements, el.isClose = false) ∧ (∀ el ∈ dashes.elements, el.isClose = false) ∧
      ribbon.reversed.reversed = ribbon ∧
      (ribbon.append dashes false).reversed = dashes.reversed.append ribbon.reversed false ∧
      ribbon.reversed.segments = (ribbon.segments.map Segment.reversed).reverse := by
  have hribbon : ribbon.Built false :=
    .pushSegment (.pushSegment (.pushSegment (.moveTo _) _) _) _
  have hdashes : dashes.Built false := .append (.polyline _) (.polyline _) nofun
  have hopen : ∀ el ∈ ribbon.elements, el.isClose = false := by decide
  have hopen' : ∀ el ∈ dashes.elements, el.isClose = false := by decide
  obtain ⟨hreversed, -, -, -, hsegments, happend, -⟩ :=
    Built.reversal hribbon hdashes hopen hopen'
  exact ⟨hopen, hopen', hreversed, happend false, hsegments⟩

end Curve

end Freehand
