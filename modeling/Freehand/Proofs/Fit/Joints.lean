import Freehand.Fit.Pieces
import Freehand.Proofs.Geometry.Span
import Freehand.Proofs.Scalar.Laws
import Mathlib.Data.List.Chain

/-!
# Where fitted segments start and end

The segments fitted to a run of samples lead from its first sample to its last, and each starts
where the one before it ended (`Fit.pieces_link`), as long as no run has chords that add up to
nothing.  The two parts of a split share the sample that they are split at.

Cleaning leaves out samples that are not finite and samples equal to the one before.  Over scalars
that are all finite and equal where `==` says so, it keeps the first and the last sample.
-/

namespace Freehand

variable {R : Type} [Scalar R]

theorem Point.eq_of_beq (h : Scalar.Measured R) {p q : Point R} (hpq : (p == q) = true) :
    p = q := by
  cases p
  cases q
  simp only [BEq.beq, instBEqPoint.beq, Bool.and_eq_true] at hpq
  rw [h.eq_of_beq _ _ hpq.1, h.eq_of_beq _ _ hpq.2]

theorem Point.beq_refl (h : Scalar.Measured R) (p : Point R) : (p == p) = true := by
  cases p
  simp only [BEq.beq, instBEqPoint.beq, Bool.and_eq_true]
  exact ⟨h.number _, h.number _⟩

namespace Fit

/-! ## Cleaning -/

section

variable (h : Scalar.Measured R)
include h

theorem filter_finite (points : List (Point R)) : points.filter Point.isFinite = points :=
  List.filter_eq_self.2 fun p _ => by
    rw [Point.isFinite, h.finite, h.finite]
    rfl

/-- The last sample is kept, or it is equal to the last one that is. -/
theorem dedupFrom_getLast? (p : Point R) (points : List (Point R)) :
    (dedupFrom p points).getLast?.getD p = points.getLast?.getD p := by
  induction points generalizing p with
  | nil => rfl
  | cons q points ih =>
    rw [dedupFrom]
    split
    next hq =>
      obtain rfl := Point.eq_of_beq h hq
      rw [ih, List.getLast?_cons, Option.getD_some]
    next =>
      rw [List.getLast?_cons, List.getLast?_cons, Option.getD_some, Option.getD_some, ih]

theorem clean_cons (p : Point R) (points : List (Point R)) :
    clean (p :: points) = p :: dedupFrom p points := by
  rw [clean, filter_finite h]

theorem clean_head? (points : List (Point R)) : (clean points).head? = points.head? := by
  cases points with
  | nil => rfl
  | cons p points => rw [clean_cons h, List.head?_cons, List.head?_cons]

theorem clean_getLast? (points : List (Point R)) : (clean points).getLast? = points.getLast? := by
  cases points with
  | nil => rfl
  | cons p points =>
    rw [clean_cons h, List.getLast?_cons, List.getLast?_cons, dedupFrom_getLast? h]

end

/-- No sample of a cleaned run is equal to the one before. -/
theorem dedupFrom_isChain (hrefl : ∀ p : Point R, (p == p) = true) (p : Point R)
    (points : List (Point R)) : (p :: dedupFrom p points).IsChain (· ≠ ·) := by
  induction points generalizing p with
  | nil => exact .singleton p
  | cons q points ih =>
    rw [dedupFrom]
    split
    next => exact ih p
    next hq =>
      refine .cons_cons ?_ (ih q)
      rintro rfl
      exact hq (hrefl p)

theorem clean_isChain (hrefl : ∀ p : Point R, (p == p) = true) (points : List (Point R)) :
    (clean points).IsChain (· ≠ ·) := by
  rw [clean]
  split
  · exact .nil
  · exact dedupFrom_isChain hrefl _ _

/-! ## One segment -/

theorem Candidate.improve_ends (f : Frame R) (data : List (Point R)) (tolerance : R) (n : Nat)
    {c : Candidate R} (hc : c.segment.p0 = f.first ∧ c.segment.p3 = f.last) :
    (c.improve f data tolerance n).segment.p0 = f.first ∧
      (c.improve f data tolerance n).segment.p3 = f.last := by
  induction n generalizing c with
  | zero => exact hc
  | succ n ih =>
    rw [improve]
    split
    · exact ⟨rfl, rfl⟩
    · exact ih ⟨rfl, rfl⟩

/-- A fitted segment has the ends of its frame. -/
theorem candidate_ends (f : Frame R) (data : List (Point R)) (tolerance : R) (u : List R) :
    (candidate f data tolerance u).segment.p0 = f.first ∧
      (candidate f data tolerance u).segment.p3 = f.last := by
  rw [candidate]
  split
  · exact ⟨rfl, rfl⟩
  · split
    · exact Candidate.improve_ends f data tolerance refinements ⟨rfl, rfl⟩
    · exact ⟨rfl, rfl⟩

/-- The segment of a run leads from its first sample to its last. -/
theorem single?_ends {tolerance : R} {ends : Ends R} {data : List (Point R)} {c : Candidate R}
    (hsingle : single? tolerance ends data = some c) {p q : Point R} (hp : data.head? = some p)
    (hq : data.getLast? = some q) : c.segment.p0 = p ∧ c.segment.p3 = q := by
  obtain ⟨u, -, rfl⟩ := Option.map_eq_some_iff.1 hsingle
  obtain ⟨hstart, hstop⟩ := candidate_ends (frame ends data) data tolerance u
  rw [hstart, hstop, frame, hp, hq]
  exact ⟨rfl, rfl⟩

/-! ## Many segments -/

omit [Scalar R] in
/-- Both parts of a split have the sample that the run is split at. -/
theorem split_ends {data : List (Point R)} {i : Nat} (hi : i + 1 < data.length) :
    ∃ m, (data.take (i + 1)).head? = data.head? ∧ (data.take (i + 1)).getLast? = some m ∧
      (data.drop i).head? = some m ∧ (data.drop i).getLast? = data.getLast? := by
  have hlt : i < data.length := by omega
  refine ⟨data[i], ?_, ?_, ?_, ?_⟩
  · cases data <;> rfl
  · rw [List.getLast?_take, if_neg (by omega), Nat.add_sub_cancel, List.getElem?_eq_getElem hlt]
    rfl
  · rw [List.head?_drop, List.getElem?_eq_getElem hlt]
  · rw [List.getLast?_drop, if_neg (by omega)]

/-- The segments for a run of at least two samples lead from the first to the last. -/
theorem pieces_link {tolerance : R} {ends : Ends R} {maxSegments : Nat} {data : List (Point R)}
    {segments : List (Cubic R)} (hpieces : pieces tolerance ends maxSegments data = .ok segments)
    (hchords : ∀ run, run <:+: data → 3 ≤ run.length → ∃ u, chordParameters? run = some u)
    (hdata : 2 ≤ data.length) {p q : Point R} (hp : data.head? = some p)
    (hq : data.getLast? = some q) : Cubic.Link p segments q ∧ segments ≠ [] := by
  fun_induction pieces tolerance ends maxSegments data generalizing segments p q with
  | case1 ends maxSegments data hshort =>
    obtain ⟨a, b, rfl⟩ := List.length_eq_two.1 (Nat.le_antisymm (by omega) hdata)
    cases hp
    cases hq
    cases hpieces
    exact ⟨⟨rfl, rfl⟩, List.cons_ne_nil _ _⟩
  | case2 ends maxSegments data hshort hnone =>
    obtain ⟨u, hu⟩ := hchords data List.infix_rfl (by omega)
    rw [single?, hu] at hnone
    cases hnone
  | case3 ends maxSegments data hshort c hsingle hworst =>
    cases hpieces
    exact ⟨single?_ends hsingle hp hq, List.cons_ne_nil _ _⟩
  | case4 => cases hpieces
  | case5 => cases hpieces
  | case6 => cases hpieces
  | case7 ends maxSegments data hshort c hsingle hworst hmax hw joint front hfront back hback
      ihfront =>
    rename_i ihback
    obtain ⟨m, hhead, hm, hm', hlast⟩ := split_ends hw.2
    obtain ⟨hlink, hne⟩ := ihfront hfront
      (fun run hrun => hchords run (hrun.trans (List.take_prefix _ _).isInfix))
      (by rw [List.length_take]; omega) (hhead.trans hp) hm
    obtain ⟨hlink', -⟩ := ihback hback
      (fun run hrun => hchords run (hrun.trans (List.drop_suffix _ _).isInfix))
      (by rw [List.length_drop]; omega) hm' (hlast.trans hq)
    cases hpieces
    exact ⟨hlink.append hlink', by simp [hne]⟩

/-- Fitted segments lead from the first sample to the last. -/
theorem curves_link (h : Scalar.Measured R) {p q : Point R} {points : List (Point R)}
    {tolerance : R} {maxSegments : Nat} {segments : List (Cubic R)}
    (hcurves : curves points tolerance maxSegments = .ok segments) (hmax : maxSegments ≠ 0)
    (hp : points.head? = some p) (hq : points.getLast? = some q) :
    Cubic.Link p segments q := by
  rw [curves, if_neg hmax] at hcurves
  have hp' : (clean points).head? = some p := (clean_head? h _).trans hp
  have hq' : (clean points).getLast? = some q := (clean_getLast? h _).trans hq
  have hchain : (clean points).IsChain (· ≠ ·) := clean_isChain (Point.beq_refl h) points
  generalize clean points = data at hcurves hp' hq' hchain
  match data with
  | [] => cases hp'
  | [a] =>
    obtain rfl : a = p := Option.some.inj hp'
    obtain rfl : a = q := Option.some.inj hq'
    have hnil : pieces tolerance ⟨none, none⟩ maxSegments [a] = .ok [] := by
      rw [pieces]
      rfl
    rw [hnil] at hcurves
    cases hcurves
    rfl
  | a :: b :: data =>
    refine (pieces_link hcurves (fun run hrun hlong => ?_) (by simp) hp' hq').1
    have hrunChain : run.IsChain (· ≠ ·) := List.IsChain.infix hchain hrun
    exact h.chords run hrunChain (by omega)

/-- A single segment starts at the first sample. -/
theorem curve_start (h : Scalar.Measured R) {points : List (Point R)} {tolerance : R} {s : Cubic R}
    (hcurve : curve points tolerance = .ok (some s)) : points.head? = some s.p0 := by
  cases points with
  | nil =>
    have hnil : curve ([] : List (Point R)) tolerance = .ok none := by
      rw [curve, curves, if_neg Nat.one_ne_zero, clean, List.filter_nil, pieces]
      rfl
    rw [hnil] at hcurve
    cases hcurve
  | cons p points =>
    cases hsegments : curves (p :: points) tolerance 1 with
    | error e =>
      rw [curve, hsegments] at hcurve
      cases hcurve
    | ok segments =>
      rw [curve, hsegments] at hcurve
      cases segments with
      | nil => cases hcurve
      | cons s' segments =>
        cases hcurve
        exact congrArg some
          (curves_link h hsegments Nat.one_ne_zero rfl (List.getLast?_cons ..)).1.symm

end Fit

end Freehand
