import Freehand.Proofs.Capture.Outline
import Freehand.Proofs.Fit.Partition
import Freehand.Proofs.Geometry.Trail
import Freehand.Proofs.Scalar.Reals

/-!
# The outline is one loop

Each settled edge of an outline draws from the first sample of the edge to where its window starts
(`Curve.Follows`).  A fit of the windows lets both edges go on to the last samples, with fitted
segments or with straight lines, and an edge that is a mere point has taken up samples that are all
alike.  So the finished outline leads along the left edge, across, and back along the right edge.

Samples are compared with `==`: where the last sample is left out as equal to the one before, an
edge ends at that one.
-/

namespace Freehand

variable {R : Type} [Scalar R]

/-! ## Edges -/

/-- A curve draws from the first of several samples to one like the last.  It is a mere point only
where they are all alike. -/
def Curve.Follows (c : Curve R) (samples : List (Point R)) : Prop :=
  ∃ p q path, samples.head? = some p ∧ samples.getLast? = some q ∧
    c.elements = .moveTo p :: path ∧ (∀ el ∈ path, el.draws = true) ∧
    (Path.stop p path == q) = true ∧ (path = [] → Fit.Still samples)

namespace Curve.Follows

variable {c : Curve R} {samples before rest : List (Point R)} {p q : Point R}

theorem spans (h : c.Follows samples) : ∃ p x, c.Spans p x := by
  obtain ⟨p, q, path, -, -, hpath, hdraws, -⟩ := h
  exact ⟨p, _, path, hpath, fun el hel => el.isClose_of_draws (hdraws el hel), rfl⟩

theorem still (h : c.Follows samples) (hshort : c.length ≤ 1) : Fit.Still samples := by
  obtain ⟨p, q, path, -, -, hpath, -, -, hstill⟩ := h
  rw [Curve.length, hpath, List.length_cons] at hshort
  exact hstill (List.eq_nil_of_length_eq_zero (by omega))

variable (hlaw : Scalar.Comparable R)
include hlaw

theorem moveTo (hp : p.isFinite = true) : (Curve.moveTo p).Follows [p] := by
  have hself : (p == p) = true := Point.beq_self hlaw hp
  exact ⟨p, p, [], rfl, rfl, rfl, List.forall_mem_nil _, hself, fun _ =>
    Fit.still_of_forall hlaw (List.forall_mem_singleton.2 hself)⟩

/-- A curve goes on to one like the last sample of a window, or stays where the pen stood still. -/
theorem goOn (h : c.Follows (before ++ [q])) {path : Path R} (hdraws : ∀ el ∈ path, el.draws = true)
    {l : Point R} (hl : (q :: rest).getLast? = some l)
    (hpath : path = [] ∧ Fit.Still (q :: rest) ∨
      path ≠ [] ∧ ∀ x, (Path.stop x path == l) = true) :
    Curve.Follows ⟨c.elements ++ path⟩ (before ++ q :: rest) := by
  obtain ⟨p, q', path', hp, hq', helements, hdraws', hstop, hstill⟩ := h
  obtain rfl : q = q' := by
    rw [List.getLast?_concat] at hq'
    exact Option.some.inj hq'
  refine ⟨p, l, path' ++ path, ?_, ?_, congrArg (· ++ path) helements,
    List.forall_mem_append.2 ⟨hdraws', hdraws⟩, ?_, fun hnil => ?_⟩
  · rw [List.append_cons, List.head?_append, hp]
    rfl
  · rw [List.getLast?_append, hl]
    rfl
  · rcases hpath with ⟨rfl, hwindow⟩ | ⟨-, hwindow⟩
    · rw [List.append_nil]
      exact Point.beq_trans hlaw hstop (hwindow q (.head _) l (List.mem_of_getLast? hl))
    · rw [Path.stop_append]
      exact hwindow _
  · obtain ⟨hnil', hnil⟩ := List.append_eq_nil_iff.1 hnil
    obtain ⟨-, hwindow⟩ := hpath.resolve_right fun hne => hne.1 hnil
    exact (hstill hnil').append hlaw hwindow

variable (hwindow : Fit.Regular (q :: rest))
include hwindow

/-- Fitted segments go on to the end of their window. -/
theorem pushCubics (h : c.Follows (before ++ [q])) {tolerance : R} {maxSegments : Nat}
    (hmax : maxSegments ≠ 0) {segments : List (Cubic R)}
    (hcurves : Fit.curves (q :: rest) tolerance maxSegments = .ok segments) :
    (c.pushCubics segments).Follows (before ++ q :: rest) := by
  obtain ⟨p, x, hspans⟩ := h.spans
  obtain ⟨l, hl⟩ : ∃ l, (q :: rest).getLast? = some l := ⟨_, List.getLast?_cons ..⟩
  rw [hspans.pushCubics_eq]
  refine h.goOn hlaw (Cubic.draws_elements segments) hl ?_
  rcases Fit.curves_ends hlaw hwindow hmax hcurves rfl hl with
    ⟨rfl, hstill⟩ | ⟨hne, q', hlink, hlike⟩
  · exact .inl ⟨rfl, hstill⟩
  · refine .inr ⟨mt List.map_eq_nil_iff.1 hne, fun y => ?_⟩
    rw [Cubic.stop_elements y q hne, hlink.stop]
    exact hlike

/-- Straight lines go on to the end of a window. -/
theorem extendLines (h : c.Follows (before ++ [q])) :
    (c.extendLines rest).Follows (before ++ q :: rest) := by
  obtain ⟨p, x, hspans⟩ := h.spans
  obtain ⟨l, hl⟩ : ∃ l, (q :: rest).getLast? = some l := ⟨_, List.getLast?_cons ..⟩
  have hself : (l == l) = true := Point.beq_self hlaw (hwindow.finite l (List.mem_of_getLast? hl))
  rw [hspans.extendLines_eq]
  refine h.goOn hlaw (Path.draws_lines rest) hl ?_
  cases rest with
  | nil =>
    obtain rfl : q = l := Option.some.inj hl
    exact .inl ⟨rfl, Fit.still_of_forall hlaw (List.forall_mem_singleton.2 hself)⟩
  | cons y rest =>
    refine .inr ⟨List.cons_ne_nil _ _, fun x => ?_⟩
    rw [List.getLast?_cons_cons] at hl
    rw [Path.stop_lines, hl]
    exact hself

end Curve.Follows

namespace OutlineCapture

/-! ## Between two samples -/

/-- An edge that follows the samples up to the one that its window starts with. -/
def Attached (edge : Curve R) (window samples : List (Point R)) : Prop :=
  ∃ before q rest, window = q :: rest ∧ samples = before ++ q :: rest ∧ edge.Follows (before ++ [q])

/-- An edge that has not been started, or is attached to its window. -/
def Abreast (edge : Curve R) (window samples : List (Point R)) : Prop :=
  edge = .empty ∧ window = samples ∨ Attached edge window samples

section

variable {edge : Curve R} {window samples : List (Point R)}

theorem Attached.isEmpty (h : Attached edge window samples) : edge.isEmpty = false := by
  obtain ⟨before, q, rest, -, -, hfollows⟩ := h
  obtain ⟨p, x, hspans⟩ := hfollows.spans
  exact hspans.isEmpty

theorem Attached.ne_empty (h : Attached edge window samples) : edge ≠ .empty := by
  rintro rfl
  cases h.isEmpty

theorem Attached.getLast? (h : Attached edge window samples) :
    window.getLast? = samples.getLast? := by
  obtain ⟨before, q, rest, rfl, rfl, -⟩ := h
  rw [List.getLast?_append, List.getLast?_cons]
  rfl

/-- The window of an edge is part of its samples. -/
theorem Attached.isPart (h : Attached edge window samples) : window <:+: samples := by
  obtain ⟨before, q, rest, rfl, rfl, -⟩ := h
  exact (List.suffix_append before _).isInfix

/-- An edge that follows all samples is attached to a window with the last one. -/
theorem attached_of_follows (h : edge.Follows samples) {l : Point R}
    (hl : samples.getLast? = some l) : Attached edge [l] samples := by
  obtain ⟨before, rfl⟩ := List.getLast?_eq_some_iff.1 hl
  exact ⟨before, l, [], rfl, rfl, h⟩

theorem Abreast.push (h : Abreast edge window samples) (p : Point R) :
    Abreast edge (window ++ [p]) (samples ++ [p]) := by
  rcases h with ⟨hempty, rfl⟩ | ⟨before, q, rest, rfl, rfl, hfollows⟩
  · exact .inl ⟨hempty, rfl⟩
  · exact .inr ⟨before, q, rest ++ [p], rfl, List.append_assoc .., hfollows⟩

/-- After a sample, the window of an edge is not empty. -/
theorem Abreast.ne_nil (h : Abreast edge window samples) (hne : samples ≠ []) : window ≠ [] := by
  rcases h with ⟨-, rfl⟩ | ⟨before, q, rest, rfl, -⟩
  · exact hne
  · exact List.cons_ne_nil q rest

end

/-- Both edges are points as long as nothing has moved. -/
def AtRest (lefts rights : List (Point R)) (c : OutlineCapture R) : Prop :=
  Fit.Still lefts → Fit.Still rights → c.leftEdge.length ≤ 1 ∧ c.rightEdge.length ≤ 1

/-- The edges of a capture and the samples of both edges so far: the windows are of one length, and
both edges or neither have been started. -/
structure Tracks (lefts rights : List (Point R)) (c : OutlineCapture R) : Prop where
  lengths : c.left.points.length = c.right.points.length
  left : Abreast c.leftEdge c.left.points lefts
  right : Abreast c.rightEdge c.right.points rights
  together : c.leftEdge = .empty ↔ c.rightEdge = .empty
  still : c.AtRest lefts rights

/-- Between two samples the windows have room for two more. -/
structure Keeps (lefts rights : List (Point R)) (c : OutlineCapture R) : Prop
    extends c.Tracks lefts rights where
  room : c.left.points.length + 1 < Window.capacity

/-- Both edges follow all samples. -/
structure Done (lefts rights : List (Point R)) (c : OutlineCapture R) : Prop where
  left : c.leftEdge.Follows lefts
  right : c.rightEdge.Follows rights
  still : c.AtRest lefts rights

theorem keeps_empty : (empty : OutlineCapture R).Keeps [] [] where
  lengths := rfl
  left := .inl ⟨rfl, rfl⟩
  right := .inl ⟨rfl, rfl⟩
  together := Iff.rfl
  still _ _ := ⟨Nat.zero_le 1, Nat.zero_le 1⟩
  room := Nat.lt_of_sub_eq_succ rfl

variable {c : OutlineCapture R} {lefts rights : List (Point R)}

theorem Keeps.push (h : c.Keeps lefts rights) (l r : Point R) :
    (c.push l r).Tracks (lefts ++ [l]) (rights ++ [r]) ∧ (c.push l r).left.points ≠ [] ∧
      (c.push l r).left.points.length < Window.capacity := by
  have hroom := h.room
  rw [push_eq h.lengths (by omega)]
  refine ⟨⟨?_, h.left.push l, h.right.push r, h.together, fun hl hr => ?_⟩, by simp, by simpa⟩
  · simp [h.lengths]
  · exact h.still (hl.subset (List.subset_append_left _ _))
      (hr.subset (List.subset_append_left _ _))

/-! ## Fits -/

theorem kept_left (c : OutlineCapture R) (tolerance : R) (ending : Bool) :
    (c.kept tolerance ending).left = c.left := by
  rw [kept]
  split <;> rfl

theorem kept_right (c : OutlineCapture R) (tolerance : R) (ending : Bool) :
    (c.kept tolerance ending).right = c.right := by
  rw [kept]
  split <;> rfl

/-- After a fit the windows start again at the last samples. -/
theorem settle_eq (hlengths : c.left.points.length = c.right.points.length) {l r : Point R}
    (hl : c.left.points.getLast? = some l) (hr : c.right.points.getLast? = some r) (tolerance : R)
    (ending : Bool) : ∃ settled, c.settle tolerance ending =
      { c.started.kept tolerance ending with left := ⟨[l]⟩, right := ⟨[r]⟩, settled } := by
  have hkl : (c.started.kept tolerance ending).left = c.left := by rw [kept_left, started_left]
  have hkr : (c.started.kept tolerance ending).right = c.right := by rw [kept_right, started_right]
  have heq : c.settle tolerance ending =
      (if ending then c.started.kept tolerance ending
        else { c.started.kept tolerance ending with
          settled := (c.started.kept tolerance ending).settled ++
            [(c.started.kept tolerance ending).current] }).restarted := rfl
  rw [heq]
  generalize c.started.kept tolerance ending = k at hkl hkr
  rw [← hkl, ← hkr] at hlengths
  rw [← hkl] at hl
  rw [← hkr] at hr
  cases ending with
  | true => exact ⟨k.settled, restarted_eq hlengths hl hr⟩
  | false => exact ⟨k.settled ++ [k.current], restarted_eq hlengths hl hr⟩

section

variable (hlaw : Scalar.Comparable R) (hl : Fit.Regular lefts) (hr : Fit.Regular rights)
include hlaw hl hr

/-- Edges that have not been started start where their windows do. -/
theorem Tracks.started (h : c.Tracks lefts rights) (hne : c.left.points ≠ []) :
    Attached c.started.leftEdge c.left.points lefts ∧
      Attached c.started.rightEdge c.right.points rights ∧ c.started.AtRest lefts rights := by
  rcases h.left with ⟨hleft, hlefts⟩ | hleft
  · -- neither edge has been started
    have hright : c.rightEdge = .empty := h.together.1 hleft
    obtain ⟨-, hrights⟩ : c.rightEdge = .empty ∧ c.right.points = rights :=
      h.right.resolve_right fun hattached => hattached.ne_empty hright
    obtain ⟨l, ls, hls⟩ := List.exists_cons_of_ne_nil hne
    obtain ⟨r, rs, hrs⟩ : ∃ r rs, c.right.points = r :: rs := by
      refine List.exists_cons_of_length_pos ?_
      rw [← h.lengths, hls]
      exact Nat.succ_pos _
    have heq : c.started = { c with leftEdge := .moveTo l, rightEdge := .moveTo r } := by
      rw [OutlineCapture.started, hleft, hls, hrs]
      rfl
    rw [heq, hls, hrs]
    rw [← hlefts, hls] at hl ⊢
    rw [← hrights, hrs] at hr ⊢
    refine ⟨⟨[], l, ls, rfl, rfl, ?_⟩, ⟨[], r, rs, rfl, rfl, ?_⟩, fun _ _ => ⟨?_, ?_⟩⟩
    · exact .moveTo hlaw (hl.finite l (.head _))
    · exact .moveTo hlaw (hr.finite r (.head _))
    · exact Nat.le_refl 1
    · exact Nat.le_refl 1
  · have hright : Attached c.rightEdge c.right.points rights :=
      h.right.resolve_left fun hempty => hleft.ne_empty (h.together.2 hempty.1)
    have heq : c.started = c := by
      simp [OutlineCapture.started, hleft.isEmpty, hright.isEmpty]
    rw [heq]
    exact ⟨hleft, hright, h.still⟩

/-- The edges take up their windows. -/
theorem done_kept (hleft : Attached c.leftEdge c.left.points lefts)
    (hright : Attached c.rightEdge c.right.points rights) (hstill : c.AtRest lefts rights)
    (tolerance : R) (ending : Bool) : (c.kept tolerance ending).Done lefts rights := by
  have hlwindow := hl.mono hleft.isPart
  have hrwindow := hr.mono hright.isPart
  have hrest : (c.kept tolerance ending).AtRest lefts rights := fun hls hrs => by
    -- where nothing has moved, there is nothing to fit
    rw [OutlineCapture.kept,
      Fit.curves_of_still hlaw hlwindow (hls.subset hleft.isPart.subset),
      Fit.curves_of_still hlaw hrwindow (hrs.subset hright.isPart.subset)]
    exact hstill hls hrs
  obtain ⟨lbefore, l, ls, hls, hlefts, hlfollows⟩ := hleft
  obtain ⟨rbefore, r, rs, hrs, hrights, hrfollows⟩ := hright
  rw [hls] at hlwindow
  rw [hrs] at hrwindow
  suffices hfollows : (c.kept tolerance ending).leftEdge.Follows lefts ∧
      (c.kept tolerance ending).rightEdge.Follows rights from ⟨hfollows.1, hfollows.2, hrest⟩
  rw [hlefts, hrights, OutlineCapture.kept]
  split
  next b1 b2 hb1 hb2 =>
    rw [hls] at hb1
    rw [hrs] at hb2
    exact ⟨hlfollows.pushCubics hlaw hlwindow (by decide) hb1,
      hrfollows.pushCubics hlaw hrwindow (by decide) hb2⟩
  next =>
    rw [keepSamples, hls, hrs]
    exact ⟨hlfollows.extendLines hlaw hlwindow, hrfollows.extendLines hlaw hrwindow⟩

/-- The edges take up all samples, and go on from windows with the last ones. -/
theorem Tracks.settle (h : c.Tracks lefts rights) (hne : c.left.points ≠ []) (tolerance : R)
    (ending : Bool) : (c.settle tolerance ending).Done lefts rights ∧
      (c.settle tolerance ending).Keeps lefts rights := by
  obtain ⟨hleft, hright, hstill⟩ := h.started hlaw hl hr hne
  have hne' : c.right.points ≠ [] := by
    rw [← List.length_pos_iff, ← h.lengths, List.length_pos_iff]
    exact hne
  obtain ⟨l, hl'⟩ : ∃ l, c.left.points.getLast? = some l := ⟨_, List.getLast?_eq_some_getLast hne⟩
  obtain ⟨r, hr'⟩ : ∃ r, c.right.points.getLast? = some r := ⟨_, List.getLast?_eq_some_getLast hne'⟩
  have hdone : (c.started.kept tolerance ending).Done lefts rights :=
    done_kept hlaw hl hr (by rwa [started_left]) (by rwa [started_right]) hstill tolerance ending
  obtain ⟨settled, heq⟩ := settle_eq h.lengths hl' hr' tolerance ending
  rw [heq]
  generalize c.started.kept tolerance ending = k at hdone
  have hleft' := attached_of_follows hdone.left (hleft.getLast?.symm.trans hl')
  have hright' := attached_of_follows hdone.right (hright.getLast?.symm.trans hr')
  exact ⟨⟨hdone.left, hdone.right, hdone.still⟩, ⟨rfl, .inr hleft', .inr hright',
    iff_of_false hleft'.ne_empty hright'.ne_empty, hdone.still⟩, Nat.lt_of_sub_eq_succ rfl⟩

/-- One more sample of both edges and a fit. -/
theorem Tracks.fit (h : c.Tracks lefts rights) (hne : c.left.points ≠ [])
    (hroom : c.left.points.length < Window.capacity) (tolerance : R) :
    (c.fit tolerance).Keeps lefts rights := by
  rw [OutlineCapture.fit, fitWindow, if_neg (not_idle hne hroom)]
  split
  next => exact (h.settle hlaw hl hr hne tolerance false).2
  next hdue =>
    have hdue : c.left.points.length + 1 ≠ Window.capacity := fun heq => hdue (.inl heq)
    refine ⟨⟨h.lengths, h.left, h.right, h.together, h.still⟩, ?_⟩
    show c.left.points.length + 1 < Window.capacity
    omega

end

/-! ## The finished outline -/

/-- The outline is one closed loop: from `l` along the left edge to a point like `l'`, across to a
point like `r'`, and back along the right edge to `r`. -/
structure Loop (c : OutlineCapture R) (l l' r r' : Point R) (left : Path R) (across : Point R)
    (right : Path R) : Prop where
  leftEdge : c.leftEdge.elements = .moveTo l :: left
  rightEdge : c.rightEdge.reversed.elements = .moveTo across :: right
  outline : c.outline.elements = .moveTo l :: left ++ .lineTo across :: right ++ [.close]
  draws : ∀ el ∈ left ++ right, el.draws = true
  leftStop : (Path.stop l left == l') = true
  rightStart : (across == r') = true
  rightStop : Path.stop across right = r
  length : c.outline.length = c.leftEdge.length + c.rightEdge.length + 1

/-- The outline of edges one of which is more than a point is a loop. -/
theorem Done.loop (h : c.Done lefts rights)
    (hlong : 1 < c.leftEdge.length ∨ 1 < c.rightEdge.length) :
    ∃ l l' r r' left across right, lefts.head? = some l ∧ lefts.getLast? = some l' ∧
      rights.head? = some r ∧ rights.getLast? = some r' ∧ c.Loop l l' r r' left across right := by
  obtain ⟨l, l', left, hl, hl', hleft, hldraws, hlstop, -⟩ := h.left
  obtain ⟨r, r', path, hr, hr', hpath, hrdraws, hrstop, -⟩ := h.right
  have hspans : c.rightEdge.Spans r (Path.stop r path) :=
    ⟨path, hpath, fun el hel => el.isClose_of_draws (hrdraws el hel), rfl⟩
  obtain ⟨right, hturned, hdraws, hback, hlength⟩ := Curve.turnOnto_eq [] r hrdraws
  have hreversed : c.rightEdge.reversed.elements = .moveTo (Path.stop r path) :: right := by
    obtain ⟨path', hpath', hturned'⟩ := hspans.reversed_elements
    obtain rfl : path = path' := (List.cons.inj (hpath.symm.trans hpath')).2
    rw [hturned', hturned, List.append_nil]
  have houtline : c.outline.elements =
      .moveTo l :: left ++ .lineTo (Path.stop r path) :: right ++ [.close] := by
    rw [outline, Curve.isEmpty_of_elements hleft, hspans.isEmpty, if_pos (by simpa using hlong),
      Curve.append, hreversed]
    simp [hleft, Curve.close, Curve.isEmpty, Curve.push]
  refine ⟨l, l', r, r', left, Path.stop r path, right, hl, hl', hr, hr', hleft, hreversed, houtline,
    List.forall_mem_append.2 ⟨hldraws, hdraws⟩, hlstop, hrstop, hback, ?_⟩
  rw [Curve.length, houtline, Curve.length, hleft, Curve.length, hpath]
  simp [hlength]
  omega

omit [Scalar R] in
/-- The outline of edges neither of which is more than a point is left out. -/
theorem outline_of_short (hshort : ¬(1 < c.leftEdge.length ∨ 1 < c.rightEdge.length)) :
    c.outline = .empty := by
  have hlong : (decide (1 < c.leftEdge.length) || decide (1 < c.rightEdge.length)) = false := by
    simpa using hshort
  rw [outline, hlong, Bool.and_false]
  rfl

/-- The outline is left out where nothing has moved. -/
theorem Done.outline_eq_empty (h : c.Done lefts rights) :
    c.outline = .empty ↔ Fit.Still lefts ∧ Fit.Still rights := by
  by_cases hlong : 1 < c.leftEdge.length ∨ 1 < c.rightEdge.length
  · refine iff_of_false (fun hempty => ?_) fun hstill => ?_
    · obtain ⟨_, _, _, _, _, _, _, -, -, -, -, hloop⟩ := h.loop hlong
      have helements := hloop.outline
      rw [hempty] at helements
      cases helements
    · obtain ⟨hleft, hright⟩ := h.still hstill.1 hstill.2
      omega
  · obtain ⟨hleft, hright⟩ := not_or.1 hlong
    exact iff_of_true (outline_of_short hlong) ⟨h.left.still (by omega), h.right.still (by omega)⟩

/-! ## All samples -/

/-- A capture keeps to the samples that it has taken, whatever the tolerances were. -/
theorem keeps_taken (hlaw : Scalar.Comparable R) {samples : List (EdgeSample R)}
    (hl : Fit.Regular (samples.map EdgeSample.left))
    (hr : Fit.Regular (samples.map EdgeSample.right)) :
    (taken samples).Keeps (samples.map EdgeSample.left) (samples.map EdgeSample.right) := by
  induction samples using List.reverseRecOn with
  | nil => exact keeps_empty
  | append_singleton samples s ih =>
    have hbefore : samples <+: samples ++ [s] := List.prefix_append samples [s]
    have hkeeps := ih (hl.mono (hbefore.map _).isInfix) (hr.mono (hbefore.map _).isInfix)
    obtain ⟨htracks, hne, hroom⟩ := hkeeps.push s.left s.right
    rw [taken, List.foldl_append]
    rw [List.map_append] at hl hr ⊢
    rw [List.map_append]
    exact htracks.fit hlaw hl hr hne hroom s.tolerance

/-- The last fit lets both edges take up all samples. -/
theorem done_taken (hlaw : Scalar.Comparable R) {samples : List (EdgeSample R)}
    (hl : Fit.Regular (samples.map EdgeSample.left))
    (hr : Fit.Regular (samples.map EdgeSample.right)) (hne : samples ≠ []) (tolerance : R) :
    ((taken samples).fitWindow tolerance true).Done
      (samples.map EdgeSample.left) (samples.map EdgeSample.right) := by
  have hkeeps := keeps_taken hlaw hl hr
  have hwindow : (taken samples).left.points ≠ [] :=
    hkeeps.left.ne_nil (mt List.map_eq_nil_iff.1 hne)
  rw [fitWindow, if_neg (not_idle hwindow (Nat.lt_of_succ_lt hkeeps.room)), if_pos (.inr rfl)]
  exact (hkeeps.settle hlaw hl hr hwindow tolerance true).1

/-- The windows of an outline are of one length, and one more sample does not fill them.  The
finished outline is left out where nothing has moved, and is one closed loop around both edges
otherwise. -/
theorem taken_closes_loop (hlaw : Scalar.Comparable R) {samples : List (EdgeSample R)}
    (hl : Fit.Regular (samples.map EdgeSample.left))
    (hr : Fit.Regular (samples.map EdgeSample.right)) (tolerance : R) :
    (∀ before, before <+: samples →
      (taken before).left.length = (taken before).right.length ∧
        (taken before).left.length + 1 < Window.capacity) ∧
    ((taken samples).finish tolerance = .empty ↔ samples = [] ∨
      Fit.Still (samples.map EdgeSample.left) ∧ Fit.Still (samples.map EdgeSample.right)) ∧
    ((taken samples).finish tolerance ≠ .empty →
      (taken samples).finish tolerance = ((taken samples).fitWindow tolerance true).outline ∧
      ∃ l l' r r' left across right,
        samples.head?.map EdgeSample.left = some l ∧
        samples.getLast?.map EdgeSample.left = some l' ∧
        samples.head?.map EdgeSample.right = some r ∧
        samples.getLast?.map EdgeSample.right = some r' ∧
        ((taken samples).fitWindow tolerance true).Loop l l' r r' left across right) := by
  refine ⟨fun before hbefore => ?_, ?_⟩
  · have hbefore' := keeps_taken hlaw (hl.mono (hbefore.map _).isInfix)
      (hr.mono (hbefore.map _).isInfix)
    exact ⟨hbefore'.lengths, hbefore'.room⟩
  · by_cases hnil : samples = []
    · subst hnil
      have hempty : (taken []).finish tolerance = .empty := rfl
      exact ⟨iff_of_true hempty (.inl rfl), absurd hempty⟩
    · have hdone := done_taken hlaw hl hr hnil tolerance
      refine ⟨?_, fun hmoved => ⟨rfl, ?_⟩⟩
      · rw [finish, hdone.outline_eq_empty, or_iff_right hnil]
      · have hlong := not_imp_comm.1 outline_of_short hmoved
        obtain ⟨l, l', r, r', left, across, right, hl₀, hl', hr₀, hr', hloop⟩ := hdone.loop hlong
        rw [List.head?_map] at hl₀ hr₀
        rw [List.getLast?_map] at hl' hr'
        exact ⟨l, l', r, r', left, across, right, hl₀, hl', hr₀, hr', hloop⟩

/-- A tip that rests for longer than a window leaves a loop once it has moved. -/
theorem taken_closes_loop_rested :
    let samples : List (EdgeSample ℝ) :=
      List.replicate 20 ⟨⟨0, 0⟩, ⟨0, 1⟩, 0⟩ ++ [⟨⟨1, 0⟩, ⟨1, 1⟩, 0⟩]
    (taken samples).left.length + 1 < Window.capacity ∧ (taken samples).finish 0 ≠ .empty ∧
      ∃ left across right, ((taken samples).fitWindow 0 true).Loop
        ⟨0, 0⟩ ⟨1, 0⟩ ⟨0, 1⟩ ⟨1, 1⟩ left across right := by
  intro samples
  obtain ⟨hroom, hempty, hloop⟩ := taken_closes_loop Scalar.measured_reals.comparable
    (Fit.regular_of_measured Scalar.measured_reals (samples.map EdgeSample.left))
    (Fit.regular_of_measured Scalar.measured_reals (samples.map EdgeSample.right)) 0
  have hmoved : (taken samples).finish 0 ≠ .empty := by
    rw [Ne, hempty]
    rintro (hnil | ⟨hstill, -⟩)
    · exact absurd (congrArg List.length hnil) (Nat.succ_ne_zero 20)
    · have hstart : (⟨0, 0⟩ : Point ℝ) ∈ samples.map EdgeSample.left := .head _
      have hstop : (⟨1, 0⟩ : Point ℝ) ∈ samples.map EdgeSample.left :=
        List.mem_map.2 ⟨⟨⟨1, 0⟩, ⟨1, 1⟩, 0⟩, List.mem_append_right _ (.head _), rfl⟩
      have heq := Point.eq_of_beq Scalar.measured_reals (hstill _ hstart _ hstop)
      exact zero_ne_one (congrArg Point.x heq)
  obtain ⟨-, l, l', r, r', left, across, right, hl, hl', hr, hr', hloop⟩ := hloop hmoved
  obtain rfl : ⟨0, 0⟩ = l := Option.some.inj hl
  obtain rfl : ⟨1, 0⟩ = l' := Option.some.inj hl'
  obtain rfl : ⟨0, 1⟩ = r := Option.some.inj hr
  obtain rfl : ⟨1, 1⟩ = r' := Option.some.inj hr'
  exact ⟨(hroom samples List.prefix_rfl).2, hmoved, left, across, right, hloop⟩

end OutlineCapture

end Freehand
