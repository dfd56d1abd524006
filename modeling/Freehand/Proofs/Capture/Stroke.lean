import Freehand.Proofs.Capture.Line
import Freehand.Proofs.Fit.Accuracy
import Freehand.Proofs.Geometry.Trail
import Freehand.Tool

/-!
# A line keeps all samples

In exact arithmetic the path of a line capture leads from the first sample to the last, ends all its
elements at samples, and passes every sample within the tolerance of the fits.

Between two samples the current segment is the one fitted to the window (`LineCapture.Keeps`), so
the last fit changes nothing.  The settled path traces the samples that have left the window
(`LineCapture.Absorbed`).  Where a new sample cannot be fitted with the others, what is settled
traces them: the current segment all but the new one, which the next window takes over, and lines
the new one as well.
-/

namespace Freehand

/-! ## Paths through samples -/

/-- The path draws from one sample to another, ends all its elements at samples, and passes all of
them. -/
structure Path.Traces (tolerance : ℝ) (p : Point ℝ) (path : Path ℝ) (q : Point ℝ)
    (samples : List (Point ℝ)) : Prop where
  start : p ∈ samples
  stop : Path.stop p path = q
  draws : ∀ el ∈ path, el.draws = true
  ends : ∀ x ∈ Path.ends path, x ∈ samples
  passes : ∀ x ∈ samples, ∃ s ∈ Path.segments p path, Passes s.eval tolerance x

namespace Path.Traces

variable {tolerance : ℝ} {p q r : Point ℝ} {path path' : Path ℝ} {samples samples' : List (Point ℝ)}

theorem stop_mem (h : Traces tolerance p path q samples) : q ∈ samples := by
  rw [← h.stop]
  rcases Path.stop_mem p path with hstart | hends
  · rw [hstart]
    exact h.start
  · exact h.ends _ hends

/-- Only which samples there are counts. -/
theorem congr (h : Traces tolerance p path q samples) (hmem : ∀ x, x ∈ samples ↔ x ∈ samples') :
    Traces tolerance p path q samples' where
  start := (hmem p).1 h.start
  stop := h.stop
  draws := h.draws
  ends x hx := (hmem x).1 (h.ends x hx)
  passes x hx := h.passes x ((hmem x).2 hx)

/-- Paths that trace samples one after the other trace all of them together. -/
theorem append (h : Traces tolerance p path q samples) (h' : Traces tolerance q path' r samples') :
    Traces tolerance p (path ++ path') r (samples ++ samples') where
  start := List.mem_append_left _ h.start
  stop := by rw [Path.stop_append, h.stop, h'.stop]
  draws := List.forall_mem_append.2 ⟨h.draws, h'.draws⟩
  ends x hx := by
    rw [Path.ends_append] at hx
    rcases List.mem_append.1 hx with hx | hx
    · exact List.mem_append_left _ (h.ends x hx)
    · exact List.mem_append_right _ (h'.ends x hx)
  passes x hx := by
    rw [Path.segments_append, h.stop]
    rcases List.mem_append.1 hx with hx | hx
    · obtain ⟨s, hs, hpass⟩ := h.passes x hx
      exact ⟨s, List.mem_append_left _ hs, hpass⟩
    · obtain ⟨s, hs, hpass⟩ := h'.passes x hx
      exact ⟨s, List.mem_append_right _ hs, hpass⟩

/-- Lines trace the points that they join. -/
theorem lines (h0 : 0 ≤ tolerance) (p : Point ℝ) {points : List (Point ℝ)} (hne : points ≠ []) :
    Traces tolerance p (points.map .lineTo) (points.getLast?.getD p) (p :: points) where
  start := .head _
  stop := Path.stop_lines p points
  draws := Path.draws_lines points
  ends x hx := by
    rw [Path.ends_lines] at hx
    exact .tail _ hx
  passes x hx := by
    rcases List.mem_cons.1 hx with rfl | hx
    · obtain ⟨q, rest, rfl⟩ := List.exists_cons_of_ne_nil hne
      exact ⟨.line x q, .head _, .of_eq h0 ⟨le_refl 0, zero_le_one⟩ (Point.lerp_zero x q)⟩
    · obtain ⟨q, hq⟩ := Path.mem_segments_lines hx
      exact ⟨.line q x, hq, .of_eq h0 ⟨zero_le_one, le_refl 1⟩ (Point.lerp_one q x)⟩

/-- A fitted segment traces the samples of its window. -/
theorem cubic (h0 : 0 ≤ tolerance) {s : Cubic ℝ}
    (hcurve : Fit.curve samples tolerance = .ok (some s)) :
    Traces tolerance s.p0 [s.element] s.p3 samples := by
  obtain ⟨hstart, hstop, hpasses⟩ := Fit.curve_eq_some h0 hcurve
  refine ⟨List.mem_of_mem_head? hstart, rfl, Cubic.draws_elements [s], fun x hx => ?_,
    fun x hx => ⟨.cubic s, .head _, hpasses x hx⟩⟩
  obtain rfl : x = s.p3 := List.mem_singleton.1 hx
  exact List.mem_of_getLast? hstop

end Path.Traces

/-! ## Between two samples -/

namespace LineCapture

/-- What has become of the samples: they are all in the window, or the settled path traces those
that have left it, from the first one to where the window starts. -/
inductive Absorbed (tolerance : ℝ) (samples : List (Point ℝ)) (accumulated : Curve ℝ)
    (window : List (Point ℝ)) : Prop
  | waiting (hempty : accumulated = .empty) (hall : window = samples)
  | traced {p q : Point ℝ} {path : Path ℝ} {traced : List (Point ℝ)}
      (hp : samples.head? = some p) (hq : window.head? = some q)
      (hpath : accumulated.elements = .moveTo p :: path)
      (htraces : Path.Traces tolerance p path q traced)
      (hmem : ∀ x, x ∈ samples ↔ x ∈ traced ∨ x ∈ window)

/-- What holds between two samples: the window has room and ends with the newest sample, the current
segment is fitted to it, and the other samples are settled. -/
structure Keeps (tolerance : ℝ) (samples : List (Point ℝ)) (c : LineCapture ℝ) : Prop where
  room : c.window.points.length < Window.capacity
  newest : c.window.points.getLast? = samples.getLast?
  current : ∃ s?, Fit.curve c.window.points tolerance = .ok s? ∧ c.current = .ofCubics s?.toList
  absorbed : Absorbed tolerance samples c.accumulated c.window.points

variable {tolerance : ℝ} {samples : List (Point ℝ)} {c : LineCapture ℝ}

namespace Absorbed

variable {accumulated : Curve ℝ} {window : List (Point ℝ)}

theorem push (h : Absorbed tolerance samples accumulated window) (p : Point ℝ) :
    Absorbed tolerance (samples ++ [p]) accumulated (window ++ [p]) := by
  cases h with
  | waiting hempty hall => exact .waiting hempty (by rw [hall])
  | traced hp hq hpath htraces hmem =>
    refine .traced ?_ ?_ hpath htraces fun x => ?_
    · rw [List.head?_append, hp]
      rfl
    · rw [List.head?_append, hq]
      rfl
    · rw [List.mem_append, List.mem_append, hmem, or_assoc]

/-- Behind the settled path, the current segment traces all samples. -/
theorem joined (h : Absorbed tolerance samples c.accumulated c.window.points) (h0 : 0 ≤ tolerance)
    {s : Cubic ℝ} (hcurve : Fit.curve c.window.points tolerance = .ok (some s))
    (hcurrent : c.current = .ofCubics [s]) :
    ∃ p path, samples.head? = some p ∧ c.joined.elements = .moveTo p :: path ∧
      Path.Traces tolerance p path s.p3 samples := by
  have hsegment := Path.Traces.cubic h0 hcurve
  obtain ⟨hhead, -, -⟩ := Fit.curve_eq_some h0 hcurve
  rw [LineCapture.joined, hcurrent]
  cases h with
  | waiting hempty hall =>
    rw [hempty]
    rw [hall] at hsegment hhead
    exact ⟨s.p0, [s.element], hhead, rfl, hsegment⟩
  | @traced p q path traced hp hq hpath htraces hmem =>
    obtain rfl : q = s.p0 := Option.some.inj (hq.symm.trans hhead)
    refine ⟨p, path ++ [s.element], hp, ?_, (htraces.append hsegment).congr fun x => ?_⟩
    · show (if c.accumulated.isEmpty then Curve.ofCubics [s]
        else c.accumulated.pushSegment (.cubic s)).elements = _
      rw [Curve.pushSegment, Curve.isEmpty_of_elements hpath]
      exact congrArg (· ++ [s.element]) hpath
    · rw [List.mem_append, hmem]

/-- Behind the settled path, lines through the window and the newest sample trace all samples. -/
theorem extended {q : Point ℝ} {rest : List (Point ℝ)}
    (h : Absorbed tolerance samples accumulated (q :: rest)) (h0 : 0 ≤ tolerance)
    (newest : Point ℝ) : ∃ p path, samples.head? = some p ∧
      (accumulated.extendLines (if accumulated.isEmpty then q :: (rest ++ [newest])
        else rest ++ [newest])).elements = .moveTo p :: path ∧
      Path.Traces tolerance p path newest (samples ++ [newest]) := by
  have hne : rest ++ [newest] ≠ [] := by simp
  have hlines := Path.Traces.lines h0 q hne
  rw [List.getLast?_concat, Option.getD_some] at hlines
  cases h with
  | waiting hempty hall =>
    rw [hempty, ← hall]
    exact ⟨q, _, rfl, rfl, hlines⟩
  | @traced p q' path traced hp hq hpath htraces hmem =>
    obtain rfl : q = q' := Option.some.inj hq
    refine ⟨p, path ++ (rest ++ [newest]).map .lineTo, hp, ?_,
      (htraces.append hlines).congr fun x => ?_⟩
    · simp [Curve.extendLines, Curve.isEmpty_of_elements hpath, hpath]
    · show x ∈ traced ++ (q :: rest ++ [newest]) ↔ x ∈ samples ++ [newest]
      rw [← List.append_assoc, List.mem_append, List.mem_append, List.mem_append, hmem]

end Absorbed

/-- The window from the end of a settled segment to the newest sample. -/
theorem next_window (newest stop : Point ℝ) :
    (if newest != stop then [stop, newest] else [stop]) = [stop, newest] ∨
      newest = stop ∧ (if newest != stop then [stop, newest] else [stop]) = [stop] := by
  by_cases heq : (newest == stop) = true
  · refine .inr ⟨Point.eq_of_beq Scalar.measured_reals heq, ?_⟩
    rw [bne, heq]
    rfl
  · refine .inl ?_
    rw [bne, Bool.eq_false_of_not_eq_true heq]
    rfl

theorem fitted_eq {points : List (Point ℝ)} {s? : Option (Cubic ℝ)}
    (hcurve : Fit.curve points tolerance = .ok s?) :
    fitted points tolerance = .ofCubics s?.toList := by
  rw [fitted, hcurve]
  cases s? <;> rfl

namespace Keeps

variable {p : Point ℝ}

/-- The current segment is settled, and the window starts again at its end. -/
theorem settleCurrent (h : c.Keeps tolerance samples) (h0 : 0 ≤ tolerance) {s : Cubic ℝ}
    (hcurve : Fit.curve c.window.points tolerance = .ok (some s))
    (hcurrent : c.current = .ofCubics [s]) :
    ((c.push p).settleCurrent tolerance s.p3 p).Keeps tolerance (samples ++ [p]) := by
  obtain ⟨first, path, hfirst, hpath, htraces⟩ := h.absorbed.joined h0 hcurve hcurrent
  have hnext := next_window p s.p3
  have heq : (c.push p).settleCurrent tolerance s.p3 p =
      ⟨⟨if p != s.p3 then [s.p3, p] else [s.p3]⟩,
        fitted (if p != s.p3 then [s.p3, p] else [s.p3]) tolerance, c.joined,
        c.settled ++ [c.current]⟩ := rfl
  rw [heq]
  generalize (if p != s.p3 then [s.p3, p] else [s.p3]) = next at hnext
  have hlength : next.length ≤ 2 := by
    rcases hnext with rfl | ⟨-, rfl⟩
    · exact le_refl 2
    · exact Nat.le_succ 1
  have hhead : next.head? = some s.p3 := by
    rcases hnext with rfl | ⟨-, rfl⟩ <;> rfl
  have hlast : next.getLast? = some p := by
    rcases hnext with rfl | ⟨rfl, rfl⟩ <;> rfl
  obtain ⟨s?, hs?⟩ := Fit.curve_isOk tolerance hlength
  refine ⟨?_, ?_, ⟨s?, hs?, fitted_eq hs?⟩, .traced ?_ hhead hpath htraces fun x => ?_⟩
  · exact Nat.lt_of_le_of_lt hlength (by decide)
  · rw [List.getLast?_concat]
    exact hlast
  · rw [List.head?_append, hfirst]
    rfl
  · show x ∈ samples ++ [p] ↔ x ∈ samples ∨ x ∈ next
    have hstop : s.p3 ∈ samples := htraces.stop_mem
    rw [List.mem_append, List.mem_singleton]
    rcases hnext with rfl | ⟨rfl, rfl⟩
    · have hleft : x ∈ samples ∨ x = s.p3 ↔ x ∈ samples := or_iff_left_of_imp fun heq => heq ▸ hstop
      rw [List.mem_pair, ← or_assoc, hleft]
    · rw [List.mem_singleton]

/-- The samples are settled as lines, and the window starts again at the newest one. -/
theorem settleSamples (h : c.Keeps tolerance samples) (h0 : 0 ≤ tolerance)
    (hcurrent : c.current = .empty) (hne : samples ≠ []) :
    (c.push p).settleSamples.Keeps tolerance (samples ++ [p]) := by
  obtain ⟨q, rest, hwindow⟩ : ∃ q rest, c.window.points = q :: rest := by
    cases h.absorbed with
    | waiting _ hall =>
      rw [hall]
      exact List.exists_cons_of_ne_nil hne
    | @traced _ q _ _ _ hq => exact ⟨q, List.head?_eq_some_iff.1 hq⟩
  have hpush : (c.push p).window = ⟨q :: rest ++ [p]⟩ := by
    rw [← hwindow]
    exact Window.push_eq h.room p
  have hrestart : (c.push p).window.restart ((c.push p).window.points.length - 1) = ⟨[p]⟩ :=
    Window.restart_last _ (by rw [hpush]; exact List.getLast?_concat)
  have habsorbed := h.absorbed
  rw [hwindow] at habsorbed
  obtain ⟨first, path, hfirst, hpath, htraces⟩ := habsorbed.extended h0 p
  have heq : (c.push p).settleSamples = ⟨⟨[p]⟩, c.current,
      c.accumulated.extendLines (if c.accumulated.isEmpty then q :: (rest ++ [p]) else rest ++ [p]),
      c.settled ++ [.polyline (q :: (rest ++ [p]))]⟩ := by
    rw [LineCapture.settleSamples, hrestart, hpush]
    rfl
  rw [heq]
  refine ⟨Nat.lt_of_sub_eq_succ rfl, List.getLast?_concat.symm, ⟨none, ?_, hcurrent⟩,
    .traced ?_ rfl hpath htraces fun x => ?_⟩
  · exact Fit.curve_eq_none.2 (Fit.still_of_forall Scalar.measured_reals.comparable
      (List.forall_mem_singleton.2 (Point.beq_refl Scalar.measured_reals p)))
  · rw [List.head?_append, hfirst]
    rfl
  · exact (or_iff_left_of_imp (List.mem_append_right samples)).symm

/-- A new sample makes the window full or too long for one segment. -/
theorem split (h : c.Keeps tolerance samples) (h0 : 0 ≤ tolerance) (hne : samples ≠ []) :
    ((c.push p).split tolerance).Keeps tolerance (samples ++ [p]) := by
  have hlast : (c.push p).window.last? = some p := by
    show (c.window.push p).last? = some p
    rw [Window.push_eq h.room]
    exact List.getLast?_concat
  obtain ⟨s?, hcurve, hcurrent⟩ := h.current
  have hpush : (c.push p).current = .ofCubics s?.toList := hcurrent
  rw [LineCapture.split, hlast, hpush]
  cases s? with
  | none => exact h.settleSamples h0 hcurrent hne
  | some s =>
    rw [Option.toList_some, (Curve.spans_ofCubics s).currentPoint?]
    exact h.settleCurrent h0 hcurve hcurrent

/-- One more sample and a fit. -/
theorem step (h : c.Keeps tolerance samples) (h0 : 0 ≤ tolerance) (p : Point ℝ) :
    ((c.push p).fit tolerance).Keeps tolerance (samples ++ [p]) := by
  have hwindow : (c.push p).window.points = c.window.points ++ [p] :=
    congrArg Window.points (Window.push_eq h.room p)
  have hsamples : 2 ≤ (c.push p).window.points.length → samples ≠ [] := by
    rintro hlong rfl
    have hnil : c.window.points = [] := List.getLast?_eq_none_iff.1 h.newest
    rw [hwindow, hnil] at hlong
    exact Nat.not_succ_le_self 1 hlong
  rw [LineCapture.fit]
  split
  next hfull =>
    have hfull : Window.capacity ≤ (c.push p).window.points.length := of_decide_eq_true hfull
    exact h.split h0 (hsamples (Nat.le_trans (by decide) hfull))
  next hroom =>
    have hroom : (c.push p).window.points.length < Window.capacity := by
      by_contra hfull
      exact hroom (decide_eq_true (Nat.le_of_not_lt hfull))
    have hnewest : (c.push p).window.points.getLast? = (samples ++ [p]).getLast? := by
      rw [hwindow, List.getLast?_concat, List.getLast?_concat]
    have habsorbed := h.absorbed.push p
    rw [← hwindow] at habsorbed
    split
    next s hcurve => exact ⟨hroom, hnewest, ⟨some s, hcurve, rfl⟩, habsorbed⟩
    next hcurve =>
      -- the pen has stood still, so there was no segment before
      refine ⟨hroom, hnewest, ⟨none, hcurve, ?_⟩, habsorbed⟩
      have hstill := Fit.curve_eq_none.1 hcurve
      rw [hwindow] at hstill
      have hnone : Fit.curve c.window.points tolerance = .ok none := Fit.curve_eq_none.2
        fun x hx y hy => hstill x (List.mem_append_left _ hx) y (List.mem_append_left _ hy)
      obtain ⟨s?, hcurve', hcurrent⟩ := h.current
      obtain rfl : s? = none := Except.ok.inj (hcurve'.symm.trans hnone)
      exact hcurrent
    next e hcurve =>
      refine h.split h0 (hsamples ?_)
      by_contra hlong
      have hshort : (c.push p).window.points.length ≤ 2 := by omega
      obtain ⟨s?, hs?⟩ := Fit.curve_isOk tolerance hshort
      rw [hcurve] at hs?
      cases hs?

/-- A last fit changes nothing. -/
theorem finish_eq (h : c.Keeps tolerance samples) : c.finish tolerance = c.joined := by
  obtain ⟨s?, hcurve, hcurrent⟩ := h.current
  have hfull : c.window.isFull = false := decide_eq_false (Nat.not_le.2 h.room)
  have hfit : c.fit tolerance = c := by
    rw [LineCapture.fit, hfull, hcurve]
    cases s? with
    | none => rfl
    | some s =>
      show { c with current := .ofCubics [s] } = c
      rw [← Option.toList_some, ← hcurrent]
  rw [LineCapture.finish, hfit]

/-- The finished path traces all samples, from the first one to the last. -/
theorem finish (h : c.Keeps tolerance samples) (h0 : 0 ≤ tolerance) (hmoved : ¬ Fit.Still samples) :
    ∃ p q path, samples.head? = some p ∧ samples.getLast? = some q ∧
      (c.finish tolerance).elements = .moveTo p :: path ∧
      Path.Traces tolerance p path q samples := by
  rw [h.finish_eq]
  obtain ⟨s?, hcurve, hcurrent⟩ := h.current
  cases s? with
  | some s =>
    obtain ⟨p, path, hp, hpath, htraces⟩ := h.absorbed.joined h0 hcurve hcurrent
    have hstop := (Fit.curve_eq_some h0 hcurve).2.1
    rw [h.newest] at hstop
    exact ⟨p, s.p3, path, hp, hstop, hpath, htraces⟩
  | none =>
    have hstill : Fit.Still c.window.points := Fit.curve_eq_none.1 hcurve
    have hjoined : c.joined = c.accumulated := by
      rw [joined, hcurrent]
      rfl
    rw [hjoined]
    cases h.absorbed with
    | waiting _ hall =>
      rw [hall] at hstill
      exact absurd hstill hmoved
    | @traced p q path traced hp hq hpath htraces hmem =>
      -- the settled path ends where the pen stands still
      have heq (x : Point ℝ) (hx : x ∈ c.window.points) : x = q :=
        Point.eq_of_beq Scalar.measured_reals (hstill x hx q (List.mem_of_mem_head? hq))
      have hne : c.window.points ≠ [] := List.ne_nil_of_mem (List.mem_of_mem_head? hq)
      refine ⟨p, q, path, hp, ?_, hpath, htraces.congr fun x => ?_⟩
      · rw [← h.newest, List.getLast?_eq_some_getLast hne, heq _ (List.getLast_mem hne)]
      · rw [hmem]
        refine (or_iff_left_of_imp fun hx => ?_).symm
        rw [heq x hx]
        exact htraces.stop_mem

end Keeps

theorem keeps_taken (h0 : 0 ≤ tolerance) (samples : List (Point ℝ)) :
    (taken tolerance samples).Keeps tolerance samples := by
  induction samples using List.reverseRecOn with
  | nil =>
    refine ⟨Nat.lt_of_sub_eq_succ rfl, rfl, ⟨none, ?_, rfl⟩, .waiting rfl rfl⟩
    exact Fit.curve_eq_none.2 (List.forall_mem_nil _)
  | append_singleton samples p ih =>
    rw [taken, List.foldl_append]
    exact ih.step h0 p

end LineCapture

/-! ## Committing a stroke -/

namespace Tool

variable {R σ : Type} (h : Host R σ) (t : Tool R) (w : σ)

theorem withoutNode_capture : (withoutNode h t w).1.capture = t.capture := by
  rw [withoutNode]
  split <;> rfl

theorem withNode_capture : (withNode h t w).1.capture = t.capture := by
  rw [withNode]
  split
  next => rfl
  next =>
    split
    next => rfl
    next => split <;> rfl

variable [Scalar R]

theorem writeOutline_capture (outline : Curve R) :
    (writeOutline h t w outline).1.capture = t.capture := by
  rw [writeOutline]
  split
  next => exact withoutNode_capture h t w
  next =>
    rw [← withNode_capture h t w]
    dsimp only
    split <;> rfl

/-- A committed stroke leaves nothing in the capture. -/
theorem commit_capture : (commit h t w).1.capture = t.capture.reset := by
  rw [commit]
  exact writeOutline_capture h _ w _

end Tool

namespace LineCapture

variable {tolerance : ℝ} {samples : List (Point ℝ)}

/-- In exact arithmetic a line loses no sample.  The window has room for every sample.  The finished
path starts at the first sample with its only move, is open, ends at the last sample and ends all
its elements at samples, and a segment of it comes within the tolerance of each sample.  Committing
it empties the capture. -/
theorem taken_loses_nothing (h0 : 0 ≤ tolerance)
    (hdistinct : ∃ p ∈ samples, ∃ q ∈ samples, p ≠ q) :
    (∀ before p after, samples = before ++ p :: after →
      (taken tolerance before).window.length < Window.capacity) ∧
    (∃ first last path, samples.head? = some first ∧ samples.getLast? = some last ∧
      ((taken tolerance samples).finish tolerance).elements = .moveTo first :: path ∧
      (∀ el ∈ path, el.draws = true) ∧
      ((taken tolerance samples).finish tolerance).currentPoint? = some last ∧
      (∀ el ∈ ((taken tolerance samples).finish tolerance).elements,
        ∃ p ∈ samples, el.endPoint? = some p) ∧
      ∀ p ∈ samples, ∃ s ∈ Path.segments first path, ∃ t, 0 ≤ t ∧ t ≤ 1 ∧
        (s.eval t).distance p ≤ Real.sqrt tolerance) ∧
    ∀ {σ : Type} (h : Host ℝ σ) (t : Tool ℝ) (w : σ),
      t.capture = .line (taken tolerance samples) → (t.commit h w).1.capture = .line .empty := by
  refine ⟨fun before p after _ => (keeps_taken h0 before).room, ?_, fun h t w hcapture => ?_⟩
  · have hmoved : ¬ Fit.Still samples := by
      obtain ⟨p, hp, q, hq, hne⟩ := hdistinct
      exact fun hstill => hne (Point.eq_of_beq Scalar.measured_reals (hstill p hp q hq))
    obtain ⟨first, last, path, hfirst, hlast, hpath, htraces⟩ :=
      (keeps_taken h0 samples).finish h0 hmoved
    have hspans : ((taken tolerance samples).finish tolerance).Spans first last :=
      ⟨path, hpath, fun el hel => el.isClose_of_draws (htraces.draws el hel), htraces.stop⟩
    refine ⟨first, last, path, hfirst, hlast, hpath, htraces.draws, hspans.currentPoint?, ?_, ?_⟩
    · rw [hpath]
      refine List.forall_mem_cons.2 ⟨⟨first, htraces.start, rfl⟩, fun el hel => ?_⟩
      have hend := el.endPoint?_of_draws (htraces.draws el hel) first
      exact ⟨_, htraces.ends _ (List.mem_filterMap.2 ⟨el, hel, hend⟩), hend⟩
    · intro p hp
      obtain ⟨s, hs, hpass⟩ := htraces.passes p hp
      exact ⟨s, hs, hpass.distance_le⟩
  · rw [Tool.commit_capture, hcapture]
    rfl

/-- A pen that rests at the start for longer than a window, and then draws a corner. -/
theorem taken_loses_nothing_corner :
    let samples : List (Point ℝ) := List.replicate 20 ⟨0, 0⟩ ++ [⟨1, 0⟩, ⟨1, 1⟩]
    ∃ path, ((taken 0 samples).finish 0).elements = .moveTo ⟨0, 0⟩ :: path ∧
      ((taken 0 samples).finish 0).currentPoint? = some ⟨1, 1⟩ ∧
      ∃ s ∈ Path.segments ⟨0, 0⟩ path, ∃ t, 0 ≤ t ∧ t ≤ 1 ∧
        (s.eval t).distance ⟨1, 0⟩ ≤ Real.sqrt 0 := by
  intro samples
  have hcorner : (⟨1, 0⟩ : Point ℝ) ∈ samples := List.mem_append_right _ (.head _)
  have hne : (⟨0, 0⟩ : Point ℝ) ≠ ⟨1, 0⟩ := fun heq => zero_ne_one (congrArg Point.x heq)
  have hdistinct : ∃ p ∈ samples, ∃ q ∈ samples, p ≠ q :=
    ⟨⟨0, 0⟩, .head _, ⟨1, 0⟩, hcorner, hne⟩
  obtain ⟨-, ⟨first, last, path, hfirst, hlast, hpath, -, hcurrent, -, hnear⟩, -⟩ :=
    taken_loses_nothing (le_refl 0) hdistinct
  obtain rfl : ⟨0, 0⟩ = first := Option.some.inj hfirst
  obtain rfl : ⟨1, 1⟩ = last := Option.some.inj hlast
  exact ⟨path, hpath, hcurrent, hnear ⟨1, 0⟩ hcorner⟩

end LineCapture

end Freehand
