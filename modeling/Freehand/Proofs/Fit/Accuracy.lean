import Freehand.Proofs.Fit.Cleaning
import Freehand.Proofs.Fit.Partition
import Freehand.Proofs.Scalar.Reals

/-!
# How near a fit comes to its samples

In exact arithmetic a fit passes every sample within its tolerance.  What the program compares with
the tolerance is the distance of the inner samples from the points at their own parameters, so the
parameters have to be parameters of the segment: the first guess lies between 0 and 1, and a Newton
step is clamped to there (`Fit.Parameters`).  The end samples are never compared.  A segment starts
and ends at them, and so does a segment for two samples only.

A fit that is allowed a segment for each chord always gives an answer (`Fit.pieces_isOk`).
-/

namespace Freehand

/-- A curve passes the point `p`: one of its points is not farther from `p` than the tolerance,
which is a squared distance. -/
def Passes (curve : ℝ → Point ℝ) (tolerance : ℝ) (p : Point ℝ) : Prop :=
  ∃ t, 0 ≤ t ∧ t ≤ 1 ∧ (curve t - p).normSq ≤ tolerance

section

variable {tolerance : ℝ} {curve : ℝ → Point ℝ} {p : Point ℝ}

theorem Passes.distance_le (h : Passes curve tolerance p) :
    ∃ t, 0 ≤ t ∧ t ≤ 1 ∧ (curve t).distance p ≤ Real.sqrt tolerance := by
  obtain ⟨t, hpos, hle, herror⟩ := h
  exact ⟨t, hpos, hle, Real.sqrt_le_sqrt herror⟩

/-- A curve passes the points that it goes through. -/
theorem Passes.of_eq (h0 : 0 ≤ tolerance) {t : ℝ} (ht : 0 ≤ t ∧ t ≤ 1) (hp : curve t = p) :
    Passes curve tolerance p := by
  refine ⟨t, ht.1, ht.2, ?_⟩
  rw [hp, Point.normSq_eq, Point.sub_x, Point.sub_y, sub_self, sub_self, mul_zero, add_zero]
  exact h0

end

namespace Cubic

variable (s : Cubic ℝ)

theorem eval_zero : s.eval 0 = s.p0 := by
  rw [eval]
  ext <;> simp

theorem eval_one : s.eval 1 = s.p3 := by
  rw [eval]
  ext <;> simp

variable {tolerance : ℝ} (h0 : 0 ≤ tolerance)
include h0

theorem passes_start : Passes s.eval tolerance s.p0 :=
  .of_eq h0 ⟨le_refl 0, zero_le_one⟩ s.eval_zero

theorem passes_stop : Passes s.eval tolerance s.p3 :=
  .of_eq h0 ⟨zero_le_one, le_refl 1⟩ s.eval_one

end Cubic

namespace Fit

/-! ## Parameters -/

theorem mem_shares {total : ℝ} (htotal : 0 < total) {lengths : List ℝ}
    (hlengths : ∀ l ∈ lengths, 0 ≤ l ∧ l ≤ total) :
    ∀ t ∈ shares total lengths, 0 ≤ t ∧ t ≤ 1 := by
  fun_induction shares total lengths with
  | case1 => exact List.forall_mem_nil _
  | case2 => exact List.forall_mem_singleton.2 ⟨zero_le_one, le_refl 1⟩
  | case3 l rest hrest ih =>
    obtain ⟨⟨hpos, hle⟩, hlengths⟩ := List.forall_mem_cons.1 hlengths
    exact List.forall_mem_cons.2
      ⟨⟨div_nonneg hpos htotal.le, (div_le_one htotal).2 hle⟩, ih hlengths⟩

/-- The parameters that chords give lie between the ends of a segment. -/
theorem mem_chordParameters? {data : List (Point ℝ)} {u : List ℝ}
    (hu : chordParameters? data = some u) : ∀ t ∈ u, 0 ≤ t ∧ t ≤ 1 := by
  cases data with
  | nil => cases hu
  | cons p run =>
    simp only [chordParameters?] at hu
    cases htotal : (chordLengths 0 p run).getLast? with
    | none =>
      rw [htotal] at hu
      cases hu
    | some total =>
      simp only [htotal] at hu
      split at hu
      next => cases hu
      next hpos =>
        cases hu
        have hpos : 0 < total := lt_of_not_ge (not_or.1 hpos).1
        refine mem_shares hpos (List.forall_mem_cons.2 ⟨⟨le_refl 0, hpos.le⟩, fun l hl => ?_⟩)
        exact ⟨le_of_mem_chordLengths hl, le_of_getLast?_chordLengths htotal hl⟩

theorem clamp_mem (t : ℝ) : 0 ≤ Scalar.clamp 0 1 t ∧ Scalar.clamp 0 1 t ≤ 1 := by
  rw [Scalar.clamp]
  split
  next => exact ⟨le_refl 0, zero_le_one⟩
  next hlow =>
    split
    next => exact ⟨zero_le_one, le_refl 1⟩
    next hhigh => exact ⟨le_of_not_gt hlow, le_of_not_gt hhigh⟩

theorem newtonStep_mem (s : Cubic ℝ) (p : Point ℝ) {t : ℝ} (ht : 0 ≤ t ∧ t ≤ 1) :
    0 ≤ newtonStep s p t ∧ newtonStep s p t ≤ 1 := by
  simp only [newtonStep]
  split
  next => exact ht
  next =>
    split
    next => exact clamp_mem _
    next => exact ht

theorem refineInner_mem (s : Cubic ℝ) (data : List (Point ℝ)) {u : List ℝ}
    (hu : ∀ t ∈ u, 0 ≤ t ∧ t ≤ 1) : ∀ t ∈ refineInner s data u, 0 ≤ t ∧ t ≤ 1 := by
  fun_induction refineInner s data u with
  | case1 p q data t u ih =>
    obtain ⟨ht, hu⟩ := List.forall_mem_cons.1 hu
    exact List.forall_mem_cons.2 ⟨newtonStep_mem s p ht, ih hu⟩
  | case2 => exact hu

/-- Every sample has a parameter, and all are parameters of a segment. -/
structure Parameters (data : List (Point ℝ)) (u : List ℝ) : Prop where
  length : u.length = data.length
  mem : ∀ t ∈ u, 0 ≤ t ∧ t ≤ 1

theorem parameters_of_chords {data : List (Point ℝ)} {u : List ℝ}
    (hu : chordParameters? data = some u) : Parameters data u :=
  ⟨length_of_chordParameters? hu, mem_chordParameters? hu⟩

theorem Parameters.refine {data : List (Point ℝ)} {u : List ℝ} (h : Parameters data u)
    (s : Cubic ℝ) : Parameters data (refine s data u) := by
  refine ⟨(length_refine s data u).trans h.length, ?_⟩
  rw [Fit.refine.eq_def]
  split
  next p data t u =>
    obtain ⟨ht, hu⟩ := List.forall_mem_cons.1 h.mem
    exact List.forall_mem_cons.2 ⟨ht, refineInner_mem s data hu⟩
  next => exact h.mem

section

variable {f : Frame ℝ} {data : List (Point ℝ)} {tolerance : ℝ}

theorem Parameters.improve (n : Nat) {c : Candidate ℝ} (h : Parameters data c.parameters) :
    Parameters data (c.improve f data tolerance n).parameters := by
  induction n generalizing c with
  | zero => exact h
  | succ n ih =>
    rw [Candidate.improve]
    split
    · exact h.refine _
    · exact ih (h.refine _)

theorem Parameters.candidate {u : List ℝ} (h : Parameters data u) :
    Parameters data (candidate f data tolerance u).parameters := by
  rw [Fit.candidate]
  split
  · exact h.refine _
  · split
    · exact .improve refinements (h.refine _)
    · exact h.refine _

theorem parameters_of_single? {ends : Ends ℝ} {c : Candidate ℝ}
    (hsingle : single? tolerance ends data = some c) : Parameters data c.parameters := by
  obtain ⟨u, hu, rfl⟩ := Option.map_eq_some_iff.1 hsingle
  exact (parameters_of_chords hu).candidate

end

/-! ## Errors -/

/-- The worst error is not smaller than the candidate before the samples, nor than the error of an
inner sample at its parameter. -/
theorem le_worstInner (s : Cubic ℝ) (i : Nat) (w : ℝ × Nat) {data : List (Point ℝ)} {u : List ℝ}
    (hlength : data.length ≤ u.length) : w.1 ≤ (worstInner s i w data u).1 ∧
      ∀ p ∈ data.dropLast, ∃ t ∈ u, (s.eval t - p).normSq ≤ (worstInner s i w data u).1 := by
  fun_induction worstInner s i w data u with
  | case1 i w p q data t u error ih =>
    obtain ⟨hle, hinner⟩ := ih (Nat.le_of_succ_le_succ hlength)
    have hnext : w.1 ≤ (if w.1 < error then (error, i) else w).1 ∧
        error ≤ (if w.1 < error then (error, i) else w).1 := by
      split
      next hlt => exact ⟨hlt.le, le_refl error⟩
      next hge => exact ⟨le_refl w.1, le_of_not_gt hge⟩
    refine ⟨hnext.1.trans hle, ?_⟩
    rw [List.dropLast_cons_cons]
    refine List.forall_mem_cons.2 ⟨⟨t, .head _, hnext.2.trans hle⟩, fun x hx => ?_⟩
    obtain ⟨t', ht', herror⟩ := hinner x hx
    exact ⟨t', .tail _ ht', herror⟩
  | case2 data i w u hshort =>
    refine ⟨le_refl w.1, fun p hp => ?_⟩
    -- a run with an inner sample has a parameter for it
    rcases data with _ | ⟨q, _ | ⟨r, data⟩⟩
    · cases hp
    · cases hp
    · rcases u with _ | ⟨t, u⟩
      · cases hlength
      · exact (hshort q r data t u rfl rfl).elim

/-- A sample of a run is at an end, or it is an inner one. -/
theorem mem_ends_or_inner {data : List (Point ℝ)} {p : Point ℝ} (hp : p ∈ data) :
    data.head? = some p ∨ data.getLast? = some p ∨ p ∈ data.tail.dropLast := by
  cases data with
  | nil => cases hp
  | cons q data =>
    rcases List.mem_cons.1 hp with rfl | hp
    · exact .inl rfl
    · right
      rw [← List.dropLast_append_getLast (List.ne_nil_of_mem hp)] at hp
      rcases List.mem_append.1 hp with hp | hp
      · exact .inr hp
      · left
        rw [List.getLast?_cons, List.getLast?_eq_some_getLast, List.mem_singleton.1 hp]
        rfl

/-- A segment whose worst error is within the tolerance passes all samples of its run. -/
theorem Parameters.passes {data : List (Point ℝ)} {c : Candidate ℝ} {tolerance : ℝ}
    (h : Parameters data c.parameters) (h0 : 0 ≤ tolerance)
    (hstart : ∀ p, data.head? = some p → c.segment.p0 = p)
    (hstop : ∀ p, data.getLast? = some p → c.segment.p3 = p)
    (hworst : (c.worst data).1 ≤ tolerance) : ∀ p ∈ data, Passes c.segment.eval tolerance p := by
  intro p hp
  rcases mem_ends_or_inner hp with hfirst | hlast | hinner
  · exact hstart p hfirst ▸ c.segment.passes_start h0
  · exact hstop p hlast ▸ c.segment.passes_stop h0
  · have hlength : data.tail.length ≤ c.parameters.tail.length := by
      rw [List.length_tail, List.length_tail, h.length]
    obtain ⟨t, ht, herror⟩ := (le_worstInner c.segment 1 (0, data.length / 2) hlength).2 p hinner
    obtain ⟨hpos, hle⟩ := h.mem t (List.mem_of_mem_tail ht)
    exact ⟨t, hpos, hle, herror.trans hworst⟩

/-! ## Runs -/

/-- The segments for a run in which neighbours differ pass all of its samples. -/
theorem pieces_passes {tolerance : ℝ} (h0 : 0 ≤ tolerance) {ends : Ends ℝ} {maxSegments : Nat}
    {data : List (Point ℝ)} {segments : List (Cubic ℝ)}
    (hpieces : pieces tolerance ends maxSegments data = .ok segments)
    (hchain : data.IsChain (· ≠ ·)) (hdata : 2 ≤ data.length) :
    ∀ p ∈ data, ∃ s ∈ segments, Passes s.eval tolerance p := by
  fun_induction pieces tolerance ends maxSegments data generalizing segments with
  | case1 ends maxSegments data hshort =>
    obtain ⟨a, b, rfl⟩ := List.length_eq_two.1 (Nat.le_antisymm (by omega) hdata)
    cases hpieces
    intro p hp
    refine ⟨straight a b ends, .head _, ?_⟩
    rcases List.mem_pair.1 hp with rfl | rfl
    · exact (straight p b ends).passes_start h0
    · exact (straight a p ends).passes_stop h0
  | case2 ends maxSegments data hshort hnone =>
    obtain ⟨u, hu⟩ := Scalar.measured_reals.chords data hchain hdata
    rw [single?, hu] at hnone
    cases hnone
  | case3 ends maxSegments data hshort c hsingle hworst =>
    cases hpieces
    have hfirst : data.head? = some data[0] :=
      List.head?_eq_getElem?.trans (List.getElem?_eq_getElem (by omega))
    have hlast : data.getLast? = some data[data.length - 1] :=
      List.getLast?_eq_getElem?.trans (List.getElem?_eq_getElem (by omega))
    obtain ⟨hstart, hstop⟩ := single?_ends hsingle hfirst hlast
    have hpasses := (parameters_of_single? hsingle).passes h0
      (fun p hp => hstart.trans (Option.some.inj (hfirst.symm.trans hp)))
      (fun p hp => hstop.trans (Option.some.inj (hlast.symm.trans hp))) hworst
    exact fun p hp => ⟨c.segment, .head _, hpasses p hp⟩
  | case4 => cases hpieces
  | case5 => cases hpieces
  | case6 => cases hpieces
  | case7 ends maxSegments data hshort c hsingle hworst hmax hw joint front hfront back hback
      ihfront =>
    rename_i ihback
    cases hpieces
    have hfrontChain := List.IsChain.prefix hchain (List.take_prefix ((c.worst data).2 + 1) data)
    have hpasses := ihfront hfront hfrontChain (by rw [List.length_take]; omega)
    have hpasses' := ihback hback (hchain.suffix (List.drop_suffix _ _))
      (by rw [List.length_drop]; omega)
    intro p hp
    rw [← List.take_append_drop (c.worst data).2 data] at hp
    rcases List.mem_append.1 hp with hp | hp
    · obtain ⟨s, hs, hpass⟩ := hpasses p (List.take_subset_take_left data (Nat.le_succ _) hp)
      exact ⟨s, List.mem_append_left back hs, hpass⟩
    · obtain ⟨s, hs, hpass⟩ := hpasses' p hp
      exact ⟨s, List.mem_append_right front hs, hpass⟩

/-- A fit that is allowed a segment for each chord gives an answer, with a segment for each chord at
most. -/
theorem pieces_isOk {R : Type} [Scalar R] (tolerance : R) (ends : Ends R) {maxSegments : Nat}
    {data : List (Point R)} (hmax : data.length ≤ maxSegments + 1) :
    ∃ segments, pieces tolerance ends maxSegments data = .ok segments ∧
      segments.length ≤ data.length - 1 := by
  fun_induction pieces tolerance ends maxSegments data with
  | case1 ends maxSegments data hshort =>
    refine ⟨_, rfl, ?_⟩
    rw [short.eq_def]
    split
    · exact le_refl 1
    · exact Nat.zero_le _
  | case2 => exact ⟨_, rfl, Nat.zero_le _⟩
  | case3 ends maxSegments data hshort c hsingle hworst =>
    exact ⟨_, rfl, by rw [List.length_singleton]; omega⟩
  | case4 ends maxSegments data hshort c hsingle hworst hone => omega
  | case5 ends maxSegments data hshort c hsingle hworst hone hw joint e herror ih =>
    obtain ⟨front, hfront, -⟩ := ih (by rw [List.length_take]; omega)
    rw [herror] at hfront
    cases hfront
  | case6 ends maxSegments data hshort c hsingle hworst hone hw joint front hfront e herror
      ihfront ihback =>
    obtain ⟨front', hfront', hlength⟩ := ihfront (by rw [List.length_take]; omega)
    obtain rfl : front = front' := Except.ok.inj (hfront.symm.trans hfront')
    rw [List.length_take] at hlength
    obtain ⟨back, hback, -⟩ := ihback (by rw [List.length_drop]; omega)
    rw [herror] at hback
    cases hback
  | case7 ends maxSegments data hshort c hsingle hworst hone hw joint front hfront back hback
      ihfront =>
    rename_i ihback
    obtain ⟨front', hfront', hlength⟩ := ihfront (by rw [List.length_take]; omega)
    obtain rfl : front = front' := Except.ok.inj (hfront.symm.trans hfront')
    rw [List.length_take] at hlength
    obtain ⟨back', hback', hlength'⟩ := ihback (by rw [List.length_drop]; omega)
    obtain rfl : back = back' := Except.ok.inj (hback.symm.trans hback')
    rw [List.length_drop] at hlength'
    exact ⟨_, rfl, by rw [List.length_append]; omega⟩

/-! ## One segment -/

section

variable {points : List (Point ℝ)} {tolerance : ℝ}

/-- There is no segment only where the pen stood still. -/
theorem curve_eq_none : curve points tolerance = .ok none ↔ Still points := by
  have hregular := regular_of_measured Scalar.measured_reals points
  rw [← clean_length_lt_two Scalar.measured_reals.comparable hregular.finite, curve, curves,
    if_neg Nat.one_ne_zero]
  refine ⟨fun hnone => ?_, fun hshort => ?_⟩
  · cases hpieces : pieces tolerance ⟨none, none⟩ 1 (clean points) with
    | error e =>
      rw [hpieces] at hnone
      cases hnone
    | ok segments =>
      rw [hpieces] at hnone
      refine (pieces_eq_nil hpieces hregular.chords_clean).1 ?_
      exact List.head?_eq_none_iff.1 (Except.ok.inj hnone)
  · rw [pieces_of_short hshort]
    rfl

/-- A segment leads from the first sample to the last and passes all samples. -/
theorem curve_eq_some (h0 : 0 ≤ tolerance) {s : Cubic ℝ}
    (hcurve : curve points tolerance = .ok (some s)) :
    points.head? = some s.p0 ∧ points.getLast? = some s.p3 ∧
      ∀ p ∈ points, Passes s.eval tolerance p := by
  have hregular := regular_of_measured Scalar.measured_reals points
  have hmoved : ¬ Still points := fun hstill => by
    rw [curve_eq_none.2 hstill] at hcurve
    cases hcurve
  rw [← clean_length_lt_two Scalar.measured_reals.comparable hregular.finite] at hmoved
  -- one segment is all that was allowed
  have hpieces : pieces tolerance ⟨none, none⟩ 1 (clean points) = .ok [s] := by
    have hcurves := curves_of_curve hcurve
    rwa [curves, if_neg Nat.one_ne_zero] at hcurves
  have hchain := clean_isChain (Point.beq_refl Scalar.measured_reals) points
  have hpasses := pieces_passes h0 hpieces hchain (by omega)
  have hne : clean points ≠ [] := List.ne_nil_of_length_pos (by omega)
  obtain ⟨⟨hstart, hstop⟩, -⟩ := pieces_link hpieces hregular.chords_clean (by omega)
    (List.head?_eq_some_head hne) (List.getLast?_eq_some_getLast hne)
  refine ⟨?_, ?_, fun p hp => ?_⟩
  · rw [← clean_head? Scalar.measured_reals, List.head?_eq_some_head hne, hstart]
  · rw [← clean_getLast? Scalar.measured_reals, List.getLast?_eq_some_getLast hne, hstop]
  · obtain ⟨s', hs', hpass⟩ := hpasses p ((mem_clean Scalar.measured_reals).2 hp)
    rwa [← List.mem_singleton.1 hs']

/-- Two samples can always be fitted. -/
theorem curve_isOk (tolerance : ℝ) (hshort : points.length ≤ 2) :
    ∃ s?, curve points tolerance = .ok s? := by
  have hlength : (clean points).length ≤ 1 + 1 := (length_clean_le points).trans hshort
  obtain ⟨segments, hpieces, -⟩ := pieces_isOk tolerance ⟨none, none⟩ hlength
  refine ⟨segments.head?, ?_⟩
  rw [curve, curves, if_neg Nat.one_ne_zero, hpieces]
  rfl

end

/-! ## All samples -/

/-- In exact arithmetic, the segments fitted to samples that are not all equal pass every sample
that is left after cleaning. -/
theorem curves_within_tolerance {points : List (Point ℝ)} {tolerance : ℝ} (h0 : 0 ≤ tolerance)
    {maxSegments : Nat} (hmax : 1 ≤ maxSegments) {segments : List (Cubic ℝ)}
    (hcurves : curves points tolerance maxSegments = .ok segments)
    (hdistinct : ∃ p ∈ points, ∃ q ∈ points, p ≠ q) : ∀ p ∈ clean points,
      ∃ s ∈ segments, ∃ t, 0 ≤ t ∧ t ≤ 1 ∧ (s.eval t - p).normSq ≤ tolerance := by
  rw [curves, if_neg (by omega)] at hcurves
  have hchain : (clean points).IsChain (· ≠ ·) :=
    clean_isChain (Point.beq_refl Scalar.measured_reals) points
  have hdata : 2 ≤ (clean points).length := two_le_length_clean Scalar.measured_reals hdistinct
  exact pieces_passes h0 hcurves hchain hdata

/-- The fit of a corner by two segments goes through the corner. -/
theorem curves_within_tolerance_corner :
    let points : List (Point ℝ) := [⟨0, 0⟩, ⟨1, 0⟩, ⟨1, 1⟩]
    ∃ segments, curves points 0 2 = .ok segments ∧
      ∃ s ∈ segments, ∃ t, 0 ≤ t ∧ t ≤ 1 ∧ (s.eval t - ⟨1, 0⟩).normSq ≤ 0 := by
  intro points
  have hlength : (clean points).length ≤ 2 + 1 := length_clean_le points
  obtain ⟨segments, hpieces, -⟩ := pieces_isOk 0 ⟨none, none⟩ hlength
  have hne : (⟨0, 0⟩ : Point ℝ) ≠ ⟨1, 0⟩ := fun heq => zero_ne_one (congrArg Point.x heq)
  have hdistinct : ∃ p ∈ points, ∃ q ∈ points, p ≠ q := ⟨_, .head _, _, .tail _ (.head _), hne⟩
  exact ⟨segments, hpieces, curves_within_tolerance (le_refl 0) (Nat.le_add_left 1 1) hpieces
    hdistinct ⟨1, 0⟩ ((mem_clean Scalar.measured_reals).2 (.tail _ (.head _)))⟩

end Fit

end Freehand
