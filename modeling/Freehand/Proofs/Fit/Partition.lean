import Freehand.Proofs.Fit.Cleaning
import Freehand.Proofs.Fit.Guarded
import Freehand.Proofs.Scalar.Integers

/-!
# How a fit partitions its samples

The segments fitted to a run lead through samples of the run, at positions that increase from the
first to the last one (`Cubic.Through`).  So they partition the run into consecutive parts, and
neighbouring parts share the sample at the joint.  The recursion keeps this because the first part
of a split is read at its own positions, and the second at positions that are moved by where the run
is split.
-/

namespace Freehand

variable {R : Type}

namespace Cubic

/-- The segments lead through samples of a run, from the one at position `i` to the one at position
`j`: each starts where the one before it ended, and ends further on. -/
def Through (data : List (Point R)) (i : Nat) : List (Cubic R) → Nat → Prop
  | [], j => i = j
  | s :: segments, j => ∃ k, i < k ∧ data[i]? = some s.p0 ∧ data[k]? = some s.p3 ∧
      Through data k segments j

variable {data data' : List (Point R)} {i j k : Nat} {segments segments' : List (Cubic R)}

theorem Through.append (h : Through data i segments j) (h' : Through data j segments' k) :
    Through data i (segments ++ segments') k := by
  induction segments generalizing i with
  | nil =>
    obtain rfl : i = j := h
    exact h'
  | cons s segments ih =>
    obtain ⟨m, him, hstart, hstop, hrest⟩ := h
    exact ⟨m, him, hstart, hstop, ih hrest⟩

/-- The same samples are found at other positions of another run. -/
theorem Through.moved (h : Through data i segments j) (d : Nat)
    (hdata : ∀ (n : Nat) (p : Point R), data[n]? = some p → data'[n + d]? = some p) :
    Through data' (i + d) segments (j + d) := by
  induction segments generalizing i with
  | nil => exact congrArg (· + d) h
  | cons s segments ih =>
    obtain ⟨m, him, hstart, hstop, hrest⟩ := h
    exact ⟨m + d, Nat.add_lt_add_right him d, hdata _ _ hstart, hdata _ _ hstop, ih hrest⟩

end Cubic

namespace Fit

variable [Scalar R]

/-- The segments for a run of at least two samples lead through the run. -/
theorem pieces_through {tolerance : R} {ends : Ends R} {maxSegments : Nat} {data : List (Point R)}
    {segments : List (Cubic R)} (hpieces : pieces tolerance ends maxSegments data = .ok segments)
    (hchords : ∀ run, run <:+: data → 3 ≤ run.length → ∃ u, chordParameters? run = some u)
    (hdata : 2 ≤ data.length) : Cubic.Through data 0 segments (data.length - 1) := by
  fun_induction pieces tolerance ends maxSegments data generalizing segments with
  | case1 ends maxSegments data hshort =>
    obtain ⟨p, q, rfl⟩ := List.length_eq_two.1 (Nat.le_antisymm (by omega) hdata)
    cases hpieces
    exact ⟨1, Nat.zero_lt_one, rfl, rfl, rfl⟩
  | case2 ends maxSegments data hshort hnone =>
    obtain ⟨u, hu⟩ := hchords data List.infix_rfl (by omega)
    rw [single?, hu] at hnone
    cases hnone
  | case3 ends maxSegments data hshort c hsingle hworst =>
    cases hpieces
    have hfirst : data[0]? = some data[0] := List.getElem?_eq_getElem _
    have hlast : data[data.length - 1]? = some data[data.length - 1] := List.getElem?_eq_getElem _
    obtain ⟨hstart, hstop⟩ := single?_ends hsingle (List.head?_eq_getElem?.trans hfirst)
      (List.getLast?_eq_getElem?.trans hlast)
    exact ⟨data.length - 1, by omega, by rw [hstart, hfirst], by rw [hstop, hlast], rfl⟩
  | case4 => cases hpieces
  | case5 => cases hpieces
  | case6 => cases hpieces
  | case7 ends maxSegments data hshort c hsingle hworst hmax hw joint front hfront back hback
      ihfront =>
    rename_i ihback
    cases hpieces
    have hlength : (data.take ((c.worst data).2 + 1)).length = (c.worst data).2 + 1 := by
      rw [List.length_take]
      omega
    have hlength' : (data.drop (c.worst data).2).length = data.length - (c.worst data).2 :=
      List.length_drop
    have hthrough := ihfront hfront
      (fun run hrun => hchords run (hrun.trans (List.take_prefix _ _).isInfix)) (by omega)
    have hthrough' := ihback hback
      (fun run hrun => hchords run (hrun.trans (List.drop_suffix _ _).isInfix)) (by omega)
    rw [hlength, Nat.add_sub_cancel] at hthrough
    rw [hlength'] at hthrough'
    -- the first part has its samples where the run has them, and the second one further on
    have hfrontRun : Cubic.Through data 0 front (c.worst data).2 :=
      hthrough.moved 0 fun n p hp => by
        rw [List.getElem?_take] at hp
        split at hp
        · exact hp
        · cases hp
    have hbackRun : Cubic.Through data (0 + (c.worst data).2) back
        (data.length - (c.worst data).2 - 1 + (c.worst data).2) :=
      hthrough'.moved (c.worst data).2 fun n p hp => by
        rwa [List.getElem?_drop, Nat.add_comm] at hp
    rw [Nat.zero_add, show data.length - (c.worst data).2 - 1 + (c.worst data).2 =
      data.length - 1 by omega] at hbackRun
    exact hfrontRun.append hbackRun

/-- There are no segments only for fewer than two samples. -/
theorem pieces_eq_nil {tolerance : R} {ends : Ends R} {maxSegments : Nat} {data : List (Point R)}
    {segments : List (Cubic R)} (hpieces : pieces tolerance ends maxSegments data = .ok segments)
    (hchords : ∀ run, run <:+: data → 3 ≤ run.length → ∃ u, chordParameters? run = some u) :
    segments = [] ↔ data.length < 2 := by
  refine ⟨?_, fun hshort => ?_⟩
  · rintro rfl
    by_contra hdata
    have hends : 0 = data.length - 1 := pieces_through hpieces hchords (by omega)
    omega
  · rw [pieces_of_short hshort] at hpieces
    exact (Except.ok.inj hpieces).symm

section

variable (hlaw : Scalar.Comparable R) {points : List (Point R)} {tolerance : R} {maxSegments : Nat}
include hlaw

/-- A run that stands still needs no segments. -/
theorem curves_of_still (h : Regular points) (hstill : Still points) :
    curves points tolerance maxSegments = .ok [] := by
  rw [curves]
  split
  · rfl
  · exact pieces_of_short ((clean_length_lt_two hlaw h.finite).2 hstill)

/-- The segments for a run lead from its first sample to one like the last, unless there are none
because it stands still. -/
theorem curves_ends (h : Regular points) (hmax : maxSegments ≠ 0) {segments : List (Cubic R)}
    (hcurves : curves points tolerance maxSegments = .ok segments) {p q : Point R}
    (hp : points.head? = some p) (hq : points.getLast? = some q) :
    segments = [] ∧ Still points ∨
      segments ≠ [] ∧ ∃ q', Cubic.Link p segments q' ∧ (q' == q) = true := by
  rw [curves, if_neg hmax] at hcurves
  by_cases hnil : segments = []
  · have hshort := (pieces_eq_nil hcurves h.chords_clean).1 hnil
    exact .inl ⟨hnil, (clean_length_lt_two hlaw h.finite).1 hshort⟩
  · have hlong : 2 ≤ (clean points).length := by
      by_contra hshort
      exact hnil ((pieces_eq_nil hcurves h.chords_clean).2 (by omega))
    obtain ⟨rest, rfl⟩ := List.head?_eq_some_iff.1 hp
    obtain ⟨q', hq', hlike⟩ := dedupFrom_getLast?_beq hlaw h.finite hq
    have hclean := clean_of_finite h.finite
    rw [← hclean] at hq'
    have hlink := (pieces_link hcurves h.chords_clean hlong (by rw [hclean]; rfl) hq').1
    exact .inr ⟨hnil, q', hlink, hlike⟩

end

/-- Whatever the samples and the tolerance are, a fit that is allowed a segment gives an answer with
all its accesses in range.  If chords add up to something, the segments that it answers partition
the samples that are left after cleaning, and there are none only where fewer than two are left. -/
theorem curves_partition (points : List (Point R)) (tolerance : R) {maxSegments : Nat}
    (hmax : 1 ≤ maxSegments) :
    Guarded.curves? points tolerance maxSegments = some (curves points tolerance maxSegments) ∧
      ∀ segments, curves points tolerance maxSegments = .ok segments →
        (∀ run, run <:+: clean points → 3 ≤ run.length → ∃ u, chordParameters? run = some u) →
        (segments = [] ↔ (clean points).length < 2) ∧
        (2 ≤ (clean points).length → 1 ≤ segments.length ∧ segments.length ≤ maxSegments ∧
          Cubic.Through (clean points) 0 segments ((clean points).length - 1)) := by
  refine ⟨Guarded.curves?_eq points tolerance maxSegments, fun segments hcurves hchords => ?_⟩
  rw [curves, if_neg (by omega)] at hcurves
  have hnil := pieces_eq_nil hcurves hchords
  refine ⟨hnil, fun hdata => ⟨?_, ?_, pieces_through hcurves hchords hdata⟩⟩
  · exact List.length_pos_iff.2 fun heq => absurd (hnil.1 heq) (by omega)
  · exact length_pieces_le hcurves hmax

/-- A corner, sampled twice at its start, is fitted by two segments: no position is out of range. -/
theorem curves_partition_corner :
    let points : List (Point Int) := [⟨0, 0⟩, ⟨0, 0⟩, ⟨10, 0⟩, ⟨10, 10⟩]
    ∃ segments, Guarded.curves? points 0 2 = some (.ok segments) ∧ segments.length = 2 ∧
      Cubic.Through (clean points) 0 segments 2 := by
  intro points
  have hlength : (curves points 0 2).toOption.map List.length = some 2 := by decide +kernel
  have hclean : (clean points).length = 3 := by decide +kernel
  have hchords : (chordParameters? (clean points)).isSome := by decide +kernel
  obtain ⟨hguarded, hshape⟩ := curves_partition points 0 (by decide : 1 ≤ 2)
  cases hcurves : curves points 0 2 with
  | error e =>
    rw [hcurves] at hlength
    cases hlength
  | ok segments =>
    rw [hcurves] at hlength hguarded
    refine ⟨segments, hguarded, Option.some.inj hlength, ?_⟩
    obtain ⟨-, hpartition⟩ := hshape segments hcurves fun run hrun hlong => by
      have hrun : run = clean points := hrun.eq_of_length (by have := hrun.length_le; omega)
      rw [hrun]
      exact Option.isSome_iff_exists.1 hchords
    have hthrough := (hpartition (by omega)).2.2
    rwa [hclean] at hthrough

end Fit

end Freehand
