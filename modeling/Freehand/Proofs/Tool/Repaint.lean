import Freehand.Proofs.Capture.Pieces
import Freehand.Proofs.Geometry.Cover
import Freehand.Proofs.Tool.Nodes

/-!
# What is repainted

What is shown is the preview and the settled pieces of the last call that showed some, and nothing
after the preview was cleared (`Exchange.shown`).  Where an input changes what is shown, it asks for
a repaint afterwards.

* After a sample and after a release the area that is repainted covers every piece that comes or
  goes (`Exchange.Repaints`).
* Where a gesture is abandoned, the area is that of the preview only (`Exchange.Lifts`).  Pieces
  that were settled before go with it, and the area need not cover them
  (`Tool.run_not_repainted`).
-/

namespace Freehand

open Exchange

variable {R σ : Type}

namespace Exchange

/-! ## What is shown -/

/-- What is shown after a call: the preview, and the settled pieces behind it. -/
def shownAfter (shown : List (Curve R)) : Exchange R → List (Curve R)
  | ⟨.showPreview current settled, _⟩ => current :: settled
  | ⟨.clearPreview, _⟩ => []
  | _ => shown

/-- What is shown after some calls. -/
def shown (calls : List (Exchange R)) : List (Curve R) :=
  calls.foldl shownAfter []

/-- The region of a call that asks for a repaint. -/
def redraw? : Exchange R → Option (Option (Rect R))
  | ⟨.requestRedraw region, _⟩ => some region
  | _ => none

/-- After each call that changes what is shown, the next repaint has a region that suits what was
shown before the call and what is shown after it. -/
def Followed (suits : Option (Rect R) → List (Curve R) → List (Curve R) → Prop) :
    List (Curve R) → List (Exchange R) → Prop
  | _, [] => True
  | shown, x :: calls =>
    (x.shownAfter shown ≠ shown → ∃ region,
      calls.findSome? redraw? = some region ∧ suits region shown (x.shownAfter shown)) ∧
    Followed suits (x.shownAfter shown) calls

/-- The region is that of the preview that was shown. -/
def Lifts [Scalar R] (region : Option (Rect R)) (before _after : List (Curve R)) : Prop :=
  ∃ current settled, before = current :: settled ∧ region = current.bounds

/-- The region is everything, or it covers every piece that is shown before or after but not both
times. -/
def Repaints [Scalar R] (region : Option (Rect R)) (before after : List (Curve R)) : Prop :=
  region = none ∨ ∀ piece, ¬(piece ∈ before ↔ piece ∈ after) → Rect.Covers region piece.bounds

/-- A call that shows nothing, clears nothing and repaints nothing. -/
def Quiet (x : Exchange R) : Prop :=
  (∀ shown, x.shownAfter shown = shown) ∧ x.redraw? = none

variable {suits : Option (Rect R) → List (Curve R) → List (Curve R) → Prop}
  {shown : List (Curve R)} {calls calls' : List (Exchange R)}

theorem foldl_quiet (h : ∀ x ∈ calls, x.Quiet) : calls.foldl shownAfter shown = shown := by
  induction calls with
  | nil => rfl
  | cons x calls ih =>
    obtain ⟨hx, hcalls⟩ := List.forall_mem_cons.1 h
    rw [List.foldl_cons, hx.1, ih hcalls]

theorem redraw?_quiet (h : ∀ x ∈ calls, x.Quiet) :
    (calls ++ calls').findSome? redraw? = calls'.findSome? redraw? := by
  rw [List.findSome?_append, List.findSome?_eq_none_iff.2 fun x hx => (h x hx).2, Option.none_or]

theorem Followed.quiet (h : ∀ x ∈ calls, x.Quiet) (hcalls : Followed suits shown calls') :
    Followed suits shown (calls ++ calls') := by
  induction calls with
  | nil => exact hcalls
  | cons x calls ih =>
    obtain ⟨hx, hrest⟩ := List.forall_mem_cons.1 h
    rw [List.cons_append, Followed, hx.1]
    exact ⟨absurd rfl, ih hrest⟩

theorem followed_of_quiet (h : ∀ x ∈ calls, x.Quiet) : Followed suits shown calls :=
  List.append_nil calls ▸ Followed.quiet h trivial

theorem quiet_stop (timer : Option TimerId) : ∀ x ∈ (stop timer : List (Exchange R)), x.Quiet := by
  cases timer <;> simp [stop, Quiet, shownAfter, redraw?]

theorem Refused.quiet (h : Refused calls) : ∀ x ∈ calls, x.Quiet := by
  cases h <;> simp [Quiet, shownAfter, redraw?]

theorem Begun.quiet {layer : LayerHandle} {timer : Option TimerId} (h : Begun layer timer calls) :
    ∀ x ∈ calls, x.Quiet := by
  cases h <;> simp [Quiet, shownAfter, redraw?]

theorem Written.quiet {layer : LayerHandle} (h : Written layer calls) : ∀ x ∈ calls, x.Quiet := by
  cases h <;> simp [Quiet, shownAfter, redraw?]

end Exchange

/-- After a sample the preview before it and the one after it are repainted, and no other piece
comes or goes. -/
theorem Capture.Succeeds.repaints [Scalar R] (hlaw : Scalar.Ordered R) {c c' : Capture R}
    (h : c.Succeeds c') {before : List (Curve R)} (hsettled : c.settled ⊆ before)
    (hbefore : before ⊆ c.preview :: c.settled) :
    Repaints (Rect.join c.preview.bounds c'.preview.bounds) before (c'.preview :: c'.settled) := by
  by_cases hempty : c.preview = .empty ∧ c'.preview = .empty
  · rw [hempty.1, hempty.2]
    exact .inl rfl
  refine .inr fun piece hpiece => ?_
  have hpreview : piece = c.preview ∨ piece = c'.preview := by
    by_cases hmem : piece ∈ before
    · have hgone : piece ∉ c'.preview :: c'.settled := fun hafter =>
        hpiece (iff_of_true hmem hafter)
      refine .inl ((List.mem_cons.1 (hbefore hmem)).resolve_right fun hkept => hgone ?_)
      exact .tail _ (h.subset hkept)
    · have hnew : piece ∈ c'.preview :: c'.settled :=
        Classical.not_not.1 fun hafter => hpiece (iff_of_false hmem hafter)
      rcases List.mem_cons.1 hnew with hnew | hnew
      · exact .inr hnew
      · rcases h.settled piece hnew with hkept | hold | hnew | hnone
        · exact absurd (hsettled hkept) hmem
        · exact .inl hold
        · exact .inr hnew
        · exact absurd hnone hempty
  rcases hpreview with rfl | rfl
  · exact Rect.Covers.join_left hlaw _ _
  · exact Rect.Covers.join_right hlaw _ _

/-- After a release the preview and the finished stroke are repainted, and every piece goes. -/
theorem Capture.Sound.repaints [Scalar R] (hlaw : Scalar.Measured R) {c : Capture R} (h : c.Sound)
    (tolerance : R) : Repaints (Rect.join c.preview.bounds (c.finish tolerance).bounds)
      (c.preview :: c.settled) [] := by
  refine .inr fun piece hpiece => ?_
  have hmem : piece ∈ c.preview :: c.settled :=
    Classical.not_not.1 fun hnot => hpiece (iff_of_false hnot List.not_mem_nil)
  rcases List.mem_cons.1 hmem with rfl | hsettled
  · exact Rect.Covers.join_left hlaw.toOrdered _ _
  · exact h.finish_covers hlaw tolerance hsettled

/-! ## Runs -/

namespace Tool

variable [Scalar R]

/-- What is shown of a tool: nothing outside of a gesture or before its first sample, and then what
it captured. -/
inductive Displays (t : Tool R) : List (Curve R) → Prop where
  | idle (hphase : t.phase = .idle) : Displays t []
  | fresh {mode : StrokeMode} (hphase : t.phase ≠ .idle) (hdragging : t.dragging = false)
      (hdrawing : t.drawing = (.ofMode mode, none)) : Displays t []
  | drawn {c : Capture R} (hphase : t.phase ≠ .idle) (hdragging : t.dragging = true)
      (hsound : c.Sound) (hdrawing : t.drawing = (c, c.preview.bounds)) :
      Displays t (c.preview :: c.settled)

variable {t t' : Tool R} {shown : List (Curve R)} {calls : List (Exchange R)} {b : Bool}

theorem Displays.congr (h : t.Displays shown) (hcontrol : t'.control = t.control)
    (hdrawing : t'.drawing = t.drawing) : t'.Displays shown := by
  simp only [control, Prod.mk.injEq] at hcontrol
  obtain ⟨hphase, -, -, -, hdragging⟩ := hcontrol
  cases h with
  | idle h => exact .idle (hphase.trans h)
  | fresh h h' h'' => exact .fresh (hphase ▸ h) (hdragging.trans h') (hdrawing.trans h'')
  | drawn h h' hsound h'' =>
    exact .drawn (hphase ▸ h) (hdragging.trans h') hsound (hdrawing.trans h'')

/-- During a gesture the capture is sound, the preview is what was repainted at last, and no more is
shown than it and the pieces that were settled. -/
theorem Displays.captured (h : t.Displays shown) (hphase : t.phase ≠ .idle) :
    t.capture.Sound ∧ t.previewRegion = t.capture.preview.bounds ∧ t.capture.settled ⊆ shown ∧
      shown ⊆ t.capture.preview :: t.capture.settled := by
  cases h with
  | idle h => exact absurd h hphase
  | @fresh mode _ _ hdrawing =>
    obtain ⟨hcapture, hregion⟩ := Prod.mk.inj hdrawing
    rw [hcapture, hregion]
    exact ⟨Capture.sound_ofMode mode, by cases mode <;> rfl,
      by cases mode <;> exact List.nil_subset _, List.nil_subset _⟩
  | drawn _ _ hsound hdrawing =>
    obtain ⟨rfl, hregion⟩ := Prod.mk.inj hdrawing
    exact ⟨hsound, hregion, List.subset_cons_self _ _, List.Subset.refl _⟩

/-- Each act has what it shows and clears repainted. -/
theorem Displays.act (hlaw : Scalar.Measured R) (h : t.Displays shown) (hact : Act t t' b calls) :
    Followed (if b then Lifts else Repaints) shown calls ∧
      t'.Displays (calls.foldl shownAfter shown) := by
  cases hact with
  | kept b hcontrol hdrawing => exact ⟨trivial, h.congr hcontrol hdrawing⟩
  | emptied b hphase hphase' hdragging hdrawing =>
    cases h with
    | idle => exact ⟨trivial, .idle hphase'⟩
    | fresh hbusy | drawn hbusy => exact absurd hphase hbusy
  | refused hrefused hcontrol hdrawing =>
    rw [foldl_quiet hrefused.quiet]
    exact ⟨followed_of_quiet hrefused.quiet, h.congr hcontrol hdrawing⟩
  | begun hphase hbegun hcontrol hdrawing =>
    rw [foldl_quiet hbegun.quiet]
    simp only [control, Prod.mk.injEq] at hcontrol
    obtain ⟨hphase', -, -, -, hdragging⟩ := hcontrol
    refine ⟨followed_of_quiet hbegun.quiet, ?_⟩
    cases h with
    | idle => exact .fresh (by rw [hphase']; decide) hdragging hdrawing
    | fresh hbusy | drawn hbusy => exact absurd hphase hbusy
  | @sampled pen tolerance c hphase hc hcontrol hdrawing =>
    obtain ⟨hsound, hregion, hsettled, hshown⟩ := h.captured (by rw [hphase]; decide)
    obtain ⟨hsound', hsucceeds⟩ := hsound.sample hlaw pen t.settings tolerance
    rw [← hc] at hsound' hsucceeds
    simp only [control, Prod.mk.injEq] at hcontrol
    obtain ⟨hphase', -, -, -, hdragging⟩ := hcontrol
    refine ⟨⟨fun _ => ⟨_, rfl, ?_⟩, absurd rfl, trivial⟩,
      .drawn (by rw [hphase']; decide) hdragging hsound' hdrawing⟩
    rw [hregion]
    exact hsucceeds.repaints hlaw.toOrdered hsettled hshown
  | released hphase hdragging hcontrol hdrawing =>
    have hidle : t'.phase = .idle := congrArg Prod.fst hcontrol
    rw [List.foldl_append, foldl_quiet (quiet_stop t.timer)]
    cases h with
    | idle h => exact absurd h hphase
    | fresh => exact ⟨.quiet (quiet_stop t.timer) ⟨absurd rfl, trivial⟩, .idle hidle⟩
    | drawn _ hdragging' => rw [hdragging] at hdragging'; cases hdragging'
  | @committed layer tolerance calls label answer hphase hdragging hwritten hdrawn hcontrol
      hdrawing =>
    have hidle : t'.phase = .idle := congrArg Prod.fst hcontrol
    rw [List.foldl_append, foldl_quiet (quiet_stop t.timer), List.foldl_cons, List.foldl_append,
      foldl_quiet hwritten.quiet]
    refine ⟨.quiet (quiet_stop t.timer) ⟨fun _ => ⟨_, redraw?_quiet hwritten.quiet, ?_⟩,
      .quiet hwritten.quiet ⟨absurd rfl, absurd rfl, trivial⟩⟩, .idle hidle⟩
    cases h with
    | idle h => exact absurd h hphase
    | fresh _ hdragging' => rw [hdragging] at hdragging'; cases hdragging'
    | drawn _ _ hsound hdrawing =>
      obtain ⟨rfl, hregion⟩ := Prod.mk.inj hdrawing
      rw [hregion]
      exact hsound.repaints hlaw tolerance
  | cancelled hphase hcontrol hdrawing =>
    have hidle : t'.phase = .idle := congrArg Prod.fst hcontrol
    rw [List.foldl_append, foldl_quiet (quiet_stop t.timer)]
    refine ⟨.quiet (quiet_stop t.timer) ⟨fun hchange => ⟨_, rfl, ?_⟩, absurd rfl, trivial⟩,
      .idle hidle⟩
    cases h with
    | idle h => exact absurd h hphase
    | fresh => exact absurd rfl hchange
    | drawn _ _ hsound hdrawing =>
      obtain ⟨rfl, hregion⟩ := Prod.mk.inj hdrawing
      exact ⟨_, _, rfl, hregion⟩

end Tool

/-! ## Every input of a run -/

namespace Tool

variable [DecimalScalar R]

/-- A tool that has not been used and has made no calls. -/
def unused (settings : Settings R) (w : σ) : Tool R × σ × List (Exchange R) :=
  (ofSettings settings, w, [])

theorem run_displays (hlaw : Scalar.Measured R) (h : Host R σ) (settings : Settings R)
    (inputs : List (Input R σ)) (w : σ) :
    let x := run h inputs (unused settings w)
    x.1.Displays (Exchange.shown x.2.2) :=
  run_induct (motive := fun t calls => t.Displays (Exchange.shown calls)) settings (.idle rfl)
    (fun {t t' b calls calls'} hdisplays hact => by
      rw [Exchange.shown, List.foldl_append]
      exact (hdisplays.act hlaw hact).2) h inputs w

/-- Whatever came before, an input that changes what is shown asks for a repaint of everything that
comes or goes; but one that abandons a gesture asks for the area of the preview only. -/
theorem run_repaints (hlaw : Scalar.Measured R) (h : Host R σ) (settings : Settings R)
    (inputs : List (Input R σ)) (w : σ) (input : Input R σ) :
    let x := run h inputs (unused settings w)
    ∃ calls, (step h x input).2.2 = x.2.2 ++ calls ∧
      Followed (if input.abandons then Lifts else Repaints) (Exchange.shown x.2.2) calls := by
  intro x
  have hdisplays := run_displays hlaw h settings inputs w
  obtain ⟨_, _, _, _, htail⟩ := Follows.run (h := h) (x := unused settings w)
    (follows_ofSettings settings) inputs
  obtain ⟨calls, hcalls, hact⟩ := act_step (h := h) x htail input
  exact ⟨calls, hcalls, (hdisplays.act hlaw hact).1⟩

end Tool

/-! ## A bent line over the integers -/

/-- A line that turns a corner. -/
def Input.bent : List (Input Int Unit) :=
  [.event (.press ⟨0, 0⟩ 0 1), .event (.move ⟨10, 0⟩ 10 ⟨true, false, false⟩),
    .event (.move ⟨20, 0⟩ 20 ⟨true, false, false⟩), .event (.move ⟨20, 10⟩ 30 ⟨true, false, false⟩),
    .event (.move ⟨20, 20⟩ 40 ⟨true, false, false⟩)]

/-- The bent line is released when two pieces were settled: everything is repainted. -/
theorem Tool.run_repaints_bent :
    let x := run (.window 1 (.ok ())) Input.bent (unused (Settings.light .line) ())
    Scalar.Measured Int ∧ (Exchange.shown x.2.2).length = 3 ∧
      ∃ calls,
        (step (.window 1 (.ok ())) x (.event (.release ⟨20, 20⟩ 50 1))).2.2 = x.2.2 ++ calls ∧
        Followed Repaints (Exchange.shown x.2.2) calls := by
  obtain ⟨calls, hcalls, hfollowed⟩ := run_repaints Scalar.measured_integers (.window 1 (.ok ()))
    (Settings.light .line) Input.bent () (.event (.release ⟨20, 20⟩ 50 1))
  rw [if_neg (by decide)] at hfollowed
  exact ⟨Scalar.measured_integers, by decide +kernel, calls, hcalls, hfollowed⟩

/-- The bent line is cancelled: a piece that was settled goes, and lies outside of the area that is
repainted. -/
theorem Tool.run_not_repainted :
    let x := run (.window 1 (.ok ())) Input.bent (unused (Settings.light .line) ())
    ∃ calls, (step (.window 1 (.ok ())) x .cancel).2.2 = x.2.2 ++ calls ∧
      ¬Followed Repaints (Exchange.shown x.2.2) calls := by
  intro x
  have hpiece : (Exchange.shown x.2.2).any (fun piece => piece.bounds.any (·.x0 < 30)) = true := by
    decide +kernel
  have hregion : x.1.previewRegion.any (30 ≤ ·.x0) = true := by decide +kernel
  have hnode : x.1.node = none := by decide +kernel
  have htimer : x.1.timer = none := by decide +kernel
  have hbusy : x.1.phase ≠ .idle := by decide +kernel
  obtain ⟨t', w', heq, -, -, hw'⟩ := cancel_traced (.window 1 (.ok ())) x.2 hnode
  rw [htimer, if_neg hbusy] at hw'
  refine ⟨_, (congrArg (·.2.2) heq).trans hw', fun hfollowed => ?_⟩
  obtain ⟨piece, hmem, hbox⟩ := List.any_eq_true.1 hpiece
  obtain ⟨box, hbox, hleft⟩ := (Option.any_eq_true _ _).1 hbox
  obtain ⟨area, harea, hright⟩ := (Option.any_eq_true _ _).1 hregion
  have hchange : ([] : List (Curve Int)) ≠ Exchange.shown x.2.2 := fun hnil => by
    rw [← hnil] at hmem
    cases hmem
  obtain ⟨region, hfound, hrepaints⟩ := hfollowed.1 hchange
  cases hfound
  rcases hrepaints with hnone | hcovers
  · rw [harea] at hnone
    cases hnone
  · obtain ⟨area', harea', hcontains⟩ :=
      hcovers piece (fun hiff => List.not_mem_nil (hiff.1 hmem)) hbox
    rw [harea] at harea'
    cases harea'
    exact absurd (Int.le_trans (of_decide_eq_true hright) hcontains.x0)
      (Int.not_le.2 (of_decide_eq_true hleft))

end Freehand
