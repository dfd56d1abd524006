import Freehand.Proofs.Capture.Loop
import Freehand.Proofs.Capture.Tiling
import Freehand.Proofs.Scalar.Binary64

/-!
# A pen that stands still

Where all samples are one point, nothing is ever fitted and an outline is left out.  A line is empty
only as long as its window has room: the sample that fills it has all of it settled as lines from
the point to itself, and every fifteenth sample after that does so again (`LineCapture.Standing`).
-/

namespace Freehand

/-- On floating-point numbers `==` is an equivalence, which leaves out what is no number. -/
theorem Binary64.comparable : Scalar.Comparable Float where
  refl _ ha := (beq_iff_rank (isNaN_of_isFinite ha) (isNaN_of_isFinite ha)).2 rfl
  symm _ _ hab := by
    obtain ⟨ha, hb⟩ := number_of_beq hab
    exact (beq_iff_rank hb ha).2 ((beq_iff_rank ha hb).1 hab).symm
  trans _ _ _ hab hbc := by
    obtain ⟨ha, hb⟩ := number_of_beq hab
    obtain ⟨-, hc⟩ := number_of_beq hbc
    exact (beq_iff_rank ha hc).2 (((beq_iff_rank ha hb).1 hab).trans ((beq_iff_rank hb hc).1 hbc))

variable {R : Type} [Scalar R]

/-! ## Runs of one sample -/

namespace Fit

variable (hlaw : Scalar.Comparable R) {p : Point R} {points : List (Point R)}
include hlaw

/-- Samples that stand still have no chords to add up. -/
theorem Still.regular (hstill : Still points) (hfinite : ∀ x ∈ points, x.isFinite = true) :
    Regular points where
  finite := hfinite
  chords run hrun hlong := by
    have hshort : (clean run).length < 2 :=
      (clean_length_lt_two hlaw fun x hx => hfinite x (hrun.subset hx)).2
        (hstill.subset hrun.subset)
    omega

theorem still_of_eq (hp : p.isFinite = true) (heq : ∀ x ∈ points, x = p) :
    Still points ∧ Regular points := by
  have hstill : Still points := still_of_forall hlaw fun x hx => by
    rw [heq x hx]
    exact Point.beq_self hlaw hp
  refine ⟨hstill, hstill.regular hlaw fun x hx => ?_⟩
  rw [heq x hx]
  exact hp

theorem curve_replicate (hp : p.isFinite = true) (n : Nat) (tolerance : R) :
    curve (.replicate n p) tolerance = .ok none := by
  obtain ⟨hstill, hregular⟩ := still_of_eq hlaw hp fun x hx => List.eq_of_mem_replicate (n := n) hx
  rw [curve, curves_of_still hlaw hregular hstill]
  rfl

end Fit

/-! ## Lines -/

omit [Scalar R] in
/-- Polygons that stay at one point are glued to one that does. -/
theorem Curve.glue_replicate (p : Point R) (n m : Nat) :
    glue (.replicate (n + 1) (polyline (.replicate (m + 1) p))) =
      .moveTo p :: .replicate (m * (n + 1)) (.lineTo p) := by
  have hpiece : polyline (.replicate (m + 1) p) = ⟨.moveTo p :: .replicate m (.lineTo p)⟩ := by
    rw [List.replicate_succ, polyline_cons, List.map_replicate]
  have hrest : (List.replicate n (polyline (.replicate (m + 1) p))).flatMap
      (fun c => c.elements.drop 1) = .replicate (m * n) (.lineTo p) := by
    rw [List.flatMap_def, List.map_replicate, hpiece, List.drop_one, List.tail_cons,
      List.flatten_replicate_replicate, Nat.mul_comm]
  rw [List.replicate_succ, glue, hrest, hpiece, List.cons_append, List.replicate_append_replicate,
    Nat.mul_succ, Nat.add_comm]

namespace LineCapture

/-- The capture after a pen stood still, with a fit after every sample. -/
def rested (p : Point R) (tolerances : List R) : LineCapture R :=
  tolerances.foldl (fun c tolerance => (c.push p).fit tolerance) empty

/-- The pen stood still: so many full windows were settled, and so many samples wait. -/
structure Standing (p : Point R) (rounds waiting : Nat) (c : LineCapture R) : Prop where
  window : c.window = ⟨.replicate waiting p⟩
  current : c.current = .empty
  settled : c.settled = .replicate rounds (.polyline (.replicate Window.capacity p))

namespace Standing

variable {p : Point R} {rounds waiting : Nat} {c : LineCapture R}

omit [Scalar R] in
theorem push (h : c.Standing p rounds waiting) (hroom : waiting < Window.capacity) :
    (c.push p).Standing p rounds (waiting + 1) where
  window := by
    have hlength : c.window.points.length < Window.capacity := by
      rwa [h.window, List.length_replicate]
    rw [LineCapture.push, Window.push_eq hlength, h.window, ← List.replicate_succ']
  current := h.current
  settled := h.settled

variable (hlaw : Scalar.Comparable R) (hp : p.isFinite = true)
include hlaw hp

/-- While the window has room, a fit changes nothing. -/
theorem fit_of_room (h : c.Standing p rounds waiting) (hroom : waiting < Window.capacity)
    (tolerance : R) : c.fit tolerance = c := by
  have hfull : c.window.isFull = false := by
    rw [Window.isFull, Window.length, h.window, List.length_replicate]
    exact decide_eq_false (Nat.not_le.2 hroom)
  rw [LineCapture.fit, hfull, h.window, Fit.curve_replicate hlaw hp]
  rfl

omit hlaw hp in
/-- A fit settles a full window, although there is nothing to fit. -/
theorem fit_of_full (h : c.Standing p rounds Window.capacity) (tolerance : R) :
    (c.fit tolerance).Standing p (rounds + 1) 1 := by
  have hfull : c.window.isFull = true := by
    rw [Window.isFull, Window.length, h.window, List.length_replicate]
    exact decide_eq_true le_rfl
  have hlast : c.window.last? = some p := by rw [h.window]; rfl
  have hfit : c.fit tolerance = c.settleSamples := by
    rw [LineCapture.fit, hfull, if_pos rfl, LineCapture.split, hlast, h.current]
    rfl
  rw [hfit]
  exact {
    window := Window.restart_last c.window hlast
    current := h.current
    settled := by
      show c.settled ++ [.polyline c.window.points] = _
      rw [h.settled, h.window, ← List.replicate_succ'] }

/-- One more sample waits, or it fills the window, which then starts anew with it. -/
theorem step (h : c.Standing p rounds waiting) (hroom : waiting < Window.capacity)
    (tolerance : R) : ((c.push p).fit tolerance).Standing p
      (if waiting + 1 < Window.capacity then rounds else rounds + 1)
      (if waiting + 1 < Window.capacity then waiting + 1 else 1) := by
  have hpush := h.push hroom
  split
  next hstill =>
    rw [hpush.fit_of_room hlaw hp hstill]
    exact hpush
  next hlast =>
    have hfull : waiting + 1 = Window.capacity := by omega
    rw [hfull] at hpush
    exact hpush.fit_of_full tolerance

end Standing

theorem tiled_rested (p : Point R) (tolerances : List R) : (rested p tolerances).Tiled :=
  tolerances.foldlRecOn (motive := Tiled) _ tiled_empty fun _ h tolerance _ =>
    (h.push p).fit tolerance

variable (hlaw : Scalar.Comparable R) {p : Point R} (hp : p.isFinite = true)
include hlaw hp

/-- The first window takes all its samples from the pen, every other one all but the first. -/
theorem standing_rested (tolerances : List R) : ∃ rounds waiting,
    tolerances.length = (Window.capacity - 1) * rounds + waiting ∧ waiting < Window.capacity ∧
      (rounds ≠ 0 → waiting ≠ 0) ∧ (rested p tolerances).Standing p rounds waiting := by
  induction tolerances using List.reverseRecOn with
  | nil => exact ⟨0, 0, rfl, Nat.succ_pos 15, absurd rfl, rfl, rfl, rfl⟩
  | append_singleton tolerances tolerance ih =>
    obtain ⟨rounds, waiting, hlength, hroom, hwaiting, hstanding⟩ := ih
    have hstep := hstanding.step hlaw hp hroom tolerance
    have hrested : rested p (tolerances ++ [tolerance]) =
        ((rested p tolerances).push p).fit tolerance :=
      List.foldl_append
    have hcapacity : Window.capacity = 16 := rfl
    rw [← hrested] at hstep
    rw [hcapacity] at hlength hroom
    refine ⟨_, _, ?_, ?_, ?_, hstep⟩
    · rw [List.length_append, List.length_singleton, hlength, hcapacity]
      split <;> omega
    · split <;> omega
    · split <;> omega

/-- The finished line is what the full windows were settled as. -/
theorem finish_rested (tolerances : List R) (tolerance : R) :
    ((rested p tolerances).finish tolerance).elements =
      if tolerances.length < Window.capacity then []
      else .moveTo p :: .replicate ((Window.capacity - 1) *
        ((tolerances.length - 1) / (Window.capacity - 1))) (.lineTo p) := by
  obtain ⟨rounds, waiting, hlength, hroom, hwaiting, hstanding⟩ :=
    standing_rested hlaw hp tolerances
  have hjoined : (rested p tolerances).joined = (rested p tolerances).accumulated := by
    rw [joined, hstanding.current]
    rfl
  rw [finish, hstanding.fit_of_room hlaw hp hroom, hjoined,
    (tiled_rested p tolerances).accumulated, hstanding.settled]
  have hcapacity : Window.capacity = 16 := rfl
  rw [hcapacity] at hlength hroom ⊢
  cases rounds with
  | zero =>
    rw [if_pos (by omega)]
    rfl
  | succ rounds =>
    have hrounds : (tolerances.length - 1) / (16 - 1) = rounds + 1 := by omega
    rw [if_neg (by omega), hrounds]
    exact Curve.glue_replicate p rounds 15

end LineCapture

/-! ## Outlines -/

namespace OutlineCapture

variable (hlaw : Scalar.Comparable R) {l r : Point R}
include hlaw

/-- The outline of a pen that stands still is left out. -/
theorem finish_rested (hl : l.isFinite = true) (hr : r.isFinite = true) (tolerances : List R)
    (tolerance : R) :
    (taken (tolerances.map (EdgeSample.mk l r))).finish tolerance = .empty := by
  by_cases hne : tolerances = []
  · rw [hne]
    rfl
  · have hlefts : ∀ x ∈ (tolerances.map (EdgeSample.mk l r)).map EdgeSample.left, x = l := by simp
    have hrights : ∀ x ∈ (tolerances.map (EdgeSample.mk l r)).map EdgeSample.right, x = r := by simp
    obtain ⟨hstillLeft, hleft⟩ := Fit.still_of_eq hlaw hl hlefts
    obtain ⟨hstillRight, hright⟩ := Fit.still_of_eq hlaw hr hrights
    have hdone := done_taken hlaw hleft hright (mt List.map_eq_nil_iff.1 hne) tolerance
    exact hdone.outline_eq_empty.2 ⟨hstillLeft, hstillRight⟩

end OutlineCapture

/-! ## Both captures -/

namespace Capture

/-- A stroke that never moves leaves no outline, however many samples there are.  It leaves no line
either as long as there are fewer samples than fill a window.  With more, the line goes from the
point to itself, once for every sample of a full window but the first. -/
theorem stands_still (hlaw : Scalar.Comparable R) {p l r : Point R} (hp : p.isFinite = true)
    (hl : l.isFinite = true) (hr : r.isFinite = true) (tolerances : List R) (tolerance : R) :
    ((LineCapture.rested p tolerances).finish tolerance = .empty ↔
      tolerances.length < Window.capacity) ∧
    (Window.capacity ≤ tolerances.length →
      ((LineCapture.rested p tolerances).finish tolerance).elements =
        .moveTo p :: .replicate ((Window.capacity - 1) *
          ((tolerances.length - 1) / (Window.capacity - 1))) (.lineTo p)) ∧
    (OutlineCapture.taken (tolerances.map (OutlineCapture.EdgeSample.mk l r))).finish tolerance =
      .empty := by
  have hline := LineCapture.finish_rested hlaw hp tolerances tolerance
  refine ⟨?_, fun hfull => hline.trans (if_neg (Nat.not_lt.2 hfull)),
    OutlineCapture.finish_rested hlaw hl hr tolerances tolerance⟩
  split at hline
  next hroom => exact iff_of_true (congrArg Curve.mk hline) hroom
  next hfull =>
    refine iff_of_false (fun hempty => ?_) hfull
    rw [hempty] at hline
    cases hline

/-- A pen that presses at one point. -/
def pressed : Point Float :=
  ⟨1, 1⟩

theorem stands_still_pressed :
    pressed.isFinite = true ∧ (LineCapture.rested pressed [1, 1]).finish 1 = .empty ∧
      ((LineCapture.rested pressed (.replicate 31 1)).finish 1).elements =
        .moveTo pressed :: .replicate 30 (.lineTo pressed) := by
  have hp : pressed.isFinite = true := by decide +kernel
  obtain ⟨hclick, -, -⟩ := stands_still Binary64.comparable hp hp hp [1, 1] 1
  obtain ⟨-, hlong, -⟩ := stands_still Binary64.comparable hp hp hp (.replicate 31 1) 1
  exact ⟨hp, hclick.2 (by decide), hlong (by decide)⟩

/-- Sixteen samples at one point leave a line. -/
theorem not_stands_still :
    ¬∀ (p l r : Point Float) (tolerances : List Float) (tolerance : Float), p.isFinite = true →
      l.isFinite = true → r.isFinite = true →
      (LineCapture.rested p tolerances).finish tolerance = .empty ∧
      (OutlineCapture.taken (tolerances.map (OutlineCapture.EdgeSample.mk l r))).finish tolerance =
        .empty := by
  intro h
  have hp : pressed.isFinite = true := by decide +kernel
  have hempty := (h pressed pressed pressed (.replicate 16 1) 1 hp hp hp).1
  have hline : ((LineCapture.rested pressed (.replicate 16 1)).finish 1).length = 16 := by
    decide +kernel
  rw [hempty] at hline
  cases hline

end Capture

end Freehand
