import Freehand.Fit.LeastSquares
import Freehand.Fit.Tangent

/-!
# Fitting runs of samples

A run of samples is approximated by cubic segments.

* Samples that are not finite and samples equal to the one before are left out first.
* Two samples are joined by a segment along the given directions.  Of more samples one segment is
  fitted, and fitted again a few times if it comes near the tolerance.
* Where one segment is not enough, the run is split at its worst sample.  Both parts keep the
  direction there, so the joint is smooth.  The number of segments is bounded, and a run that
  needs more is refused.

Tolerances are squared distances.  The worst sample is an inner one, so both parts of a split are
shorter than the run, which bounds the recursion.
-/

namespace Freehand.Fit

variable {R : Type} [Scalar R]

/-- Why a run was refused. -/
inductive FitError where
  /-- The segments allowed for some part of the run do not suffice. -/
  | unfittable (maxSegments : Nat)
  deriving DecidableEq, Repr

/-- What is wrong, in words. -/
def FitError.message : FitError → String
  | unfittable n => s!"No fit within tolerance using at most {n} segment(s)"

/-! ## Cleaning -/

/-- The samples without those equal to the sample before them, where `p` precedes the samples. -/
def dedupFrom (p : Point R) : List (Point R) → List (Point R)
  | [] => []
  | q :: rest => if q == p then dedupFrom p rest else q :: dedupFrom q rest

/-- The samples without those that are not finite or equal to the sample before them. -/
def clean (points : List (Point R)) : List (Point R) :=
  match points.filter Point.isFinite with
  | [] => []
  | p :: rest => p :: dedupFrom p rest

/-! ## One segment -/

/-- The directions that a run keeps at its ends because a neighbouring part shares them. -/
structure Ends (R : Type) where
  /-- The direction that leaves the start. -/
  start : Option (Point R)
  /-- The direction that leaves the end backwards. -/
  stop : Option (Point R)

/-- The segment between two samples only. -/
def straight (p q : Point R) (ends : Ends R) : Cubic R :=
  let third := p.distance q / 3.0
  { p0 := p
    p1 := match ends.start with
      | some t => p + third • t
      | none => p.lerp q (1.0 / 3.0)
    p2 := match ends.stop with
      | some t => q + third • t
      | none => p.lerp q (2.0 / 3.0)
    p3 := q }

/-- A segment fitted to a run, with the parameters of the samples. -/
structure Candidate (R : Type) where
  /-- The segment. -/
  segment : Cubic R
  /-- The parameters of the samples. -/
  parameters : List R

namespace Candidate

/-- Fit a segment at given parameters, then move the parameters towards the segment. -/
def ofParameters (f : Frame R) (data : List (Point R)) (u : List R) : Candidate R :=
  let s := f.fit data u
  ⟨s, refine s data u⟩

/-- The largest squared error and its position. -/
def worst (c : Candidate R) (data : List (Point R)) : R × Nat :=
  Fit.worst c.segment data c.parameters

/-- Fit again up to `n` times until the error is within the tolerance. -/
def improve (f : Frame R) (data : List (Point R)) (tolerance : R) :
    Nat → Candidate R → Candidate R
  | 0, c => c
  | n + 1, c =>
    let next := ofParameters f data c.parameters
    if (next.worst data).1 ≤ tolerance then next else improve f data tolerance n next

end Candidate

/-- The number of times a segment near the tolerance is fitted again. -/
def refinements : Nat :=
  4

/-- A first fit within this multiple of the tolerance is worth fitting again. -/
def refineRatio : R :=
  3.0

/-- The best segment for a run with given first parameters. -/
def candidate (f : Frame R) (data : List (Point R)) (tolerance : R) (u : List R) : Candidate R :=
  let c := Candidate.ofParameters f data u
  let error := (c.worst data).1
  if error ≤ tolerance then
    c
  else if error ≤ tolerance * refineRatio * refineRatio then
    c.improve f data tolerance refinements
  else
    c

/-! ## The worst sample is an inner one -/

theorem worstInner_snd (s : Cubic R) (i : Nat) (w : R × Nat) (data : List (Point R)) (u : List R) :
    (worstInner s i w data u).2 = w.2 ∨
      i ≤ (worstInner s i w data u).2 ∧ (worstInner s i w data u).2 + 1 < i + data.length := by
  fun_induction worstInner s i w data u with
  | case1 i w p q data t u error ih =>
    simp only [List.length_cons] at ih ⊢
    by_cases he : w.1 < error <;> simp only [he, ↓reduceIte] at ih ⊢ <;> omega
  | case2 => exact Or.inl rfl

/-- The worst sample of a run of at least three is neither the first nor the last. -/
theorem worst_snd_inner (s : Cubic R) (data : List (Point R)) (u : List R)
    (h : 3 ≤ data.length) : 0 < (worst s data u).2 ∧ (worst s data u).2 + 1 < data.length := by
  have hi := worstInner_snd s 1 (0, data.length / 2) data.tail u.tail
  simp only [List.length_tail] at hi
  unfold worst
  omega

/-! ## Many segments -/

/-- The ends of a run and the directions that leave them, estimated where none are kept. -/
def frame (ends : Ends R) (data : List (Point R)) : Frame R where
  first := data.head?.getD 0
  last := data.getLast?.getD 0
  tangentStart := (ends.start.or (leftTangent? data)).getD 0
  tangentEnd := (ends.stop.or (rightTangent? data)).getD 0

/-- The best single segment for a run, unless its chords add up to nothing. -/
def single? (tolerance : R) (ends : Ends R) (data : List (Point R)) : Option (Candidate R) :=
  (chordParameters? data).map (candidate (frame ends data) data tolerance)

/-- The segments for a run of fewer than three samples. -/
def short (ends : Ends R) : List (Point R) → List (Cubic R)
  | [p, q] => [straight p q ends]
  | _ => []

/-- The segments for a cleaned run, at most `maxSegments` of them. -/
def pieces (tolerance : R) (ends : Ends R) (maxSegments : Nat) (data : List (Point R)) :
    Except FitError (List (Cubic R)) :=
  if hshort : data.length < 3 then
    .ok (short ends data)
  else
    match single? tolerance ends data with
    | none => .ok []
    | some c =>
      if (c.worst data).1 ≤ tolerance then
        .ok [c.segment]
      else if maxSegments ≤ 1 then
        .error (.unfittable maxSegments)
      else
        have hw : 0 < (c.worst data).2 ∧ (c.worst data).2 + 1 < data.length :=
          worst_snd_inner c.segment data c.parameters (by omega)
        let joint := centerTangent? data (c.worst data).2
        match pieces tolerance ⟨ends.start, joint⟩ (maxSegments - 1)
            (data.take ((c.worst data).2 + 1)) with
        | .error e => .error e
        | .ok front =>
          match pieces tolerance ⟨joint.map (- ·), ends.stop⟩ (maxSegments - front.length)
              (data.drop (c.worst data).2) with
          | .error e => .error e
          | .ok back => .ok (front ++ back)
termination_by data.length
decreasing_by
  · simp only [List.length_take]
    omega
  · simp only [List.length_drop]
    omega

/-- The segments for a run of samples, at most `maxSegments` of them.  There are none for a run
without two different samples, and none if none are allowed. -/
def curves (points : List (Point R)) (tolerance : R) (maxSegments : Nat) :
    Except FitError (List (Cubic R)) :=
  if maxSegments = 0 then .ok [] else pieces tolerance ⟨none, none⟩ maxSegments (clean points)

/-- One segment for a run of samples; none for a run without two different samples. -/
def curve (points : List (Point R)) (tolerance : R) : Except FitError (Option (Cubic R)) :=
  (curves points tolerance 1).map List.head?

end Freehand.Fit
