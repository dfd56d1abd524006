import Freehand.Proofs.Tool.Isolation

/-!
# The pace of moves

Where the settings drop early moves, a gesture takes a sample from a move only if a sampling period
has passed since its last sample, or since its begin (`Tool.Paced`).

* The times of a gesture are read off a run from outside (`Tool.timed`): the press that begins it,
  and every move that is followed by a preview.
* The tool compares times that may lie in any order, so the difference is cut off at zero.  A period
  that is not zero is then a distance between natural numbers.
* A refused begin, a dropped move, a sample that leaves the pen where it is, a key and a setting
  leave the reference time alone.  What the end of a gesture leaves of it is overwritten by the next
  begin.
-/

namespace Freehand

variable {R σ : Type}

/-- Which moves are dropped: whether early ones are, and the sampling period. -/
def Settings.pace (s : Settings R) : Bool × UInt64 :=
  (s.decimateMoves, s.sampleInterval)

theorem Settings.pace_put (s : Settings R) (q : Quantity) (a : R) : (s.put q a).pace = s.pace := by
  cases q <;> rfl

/-- No preference changes which moves are dropped. -/
theorem Settings.pace_set [DecimalScalar R] {s s' : Settings R} {key : String}
    {value : Option String} (hset : s.set key value = .ok s') : s'.pace = s.pace := by
  unfold set at hset
  cases hp : Preference.ofKey? key with
  | none =>
    rw [hp] at hset
    cases hset
  | some p =>
    rw [hp] at hset
    cases p with
    | quantity q =>
      cases value with
      | none =>
        cases hset
        exact pace_put s q _
      | some text =>
        dsimp only at hset
        split at hset
        · cases hset
          exact pace_put s q _
        · cases hset
    | mode =>
      cases value with
      | none =>
        cases hset
        rfl
      | some text =>
        dsimp only at hset
        split at hset
        · cases hset
          rfl
        · cases hset
    | timer => cases value <;> cases hset <;> rfl

/-- A pull moves the pen: it is not refused, and the pen is not where it was before. -/
def Pen.moves [Scalar R] (pen : Pen R) (pointer : Point R) (viewport : Rect R) (s : Settings R) :
    Bool :=
  let (pulled, pen) := pen.pull pointer viewport s
  pulled && !(pen.position == pen.previous)

theorem Pen.not_moves [Scalar R] (pen : Pen R) (pointer : Point R) (viewport : Rect R)
    (s : Settings R) : (!pen.moves pointer viewport s) =
      (!(pen.pull pointer viewport s).1 ||
        (pen.pull pointer viewport s).2.position == (pen.pull pointer viewport s).2.previous) := by
  simp [moves]

namespace Tool

/-! ## What an operation leaves of the tool -/

theorem withoutTimer_fst (h : Host R σ) (t : Tool R) (w : σ) :
    (withoutTimer h t w).1 = { t with timer := none } := by
  rw [withoutTimer]
  split
  next => rfl
  next hnone => rw [← hnone]

theorem withoutNode_fst (h : Host R σ) (t : Tool R) (w : σ) :
    (withoutNode h t w).1 = { t with node := none } := by
  rw [withoutNode]
  split
  next => rfl
  next hnone => rw [← hnone]

theorem withoutPreview_fst (h : Host R σ) (t : Tool R) (w : σ) :
    ∃ region, (withoutPreview h t w).1 = { t with previewRegion := region } := by
  rw [withoutPreview]
  split <;> exact ⟨_, rfl⟩

theorem cancel_fst (h : Host R σ) (t : Tool R) (w : σ) :
    ∃ region, (cancel h t w).1 =
      { t.abandoned with timer := none, node := none, previewRegion := region } := by
  rw [cancel_eq]
  obtain ⟨region, hpreview⟩ := withoutPreview_fst h
    (withoutNode h (withoutTimer h t w).1 (withoutTimer h t w).2).1
    (withoutNode h (withoutTimer h t w).1 (withoutTimer h t w).2).2
  refine ⟨region, ?_⟩
  dsimp only
  rw [hpreview, withoutNode_fst, withoutTimer_fst]
  rfl

theorem withNode_fst (h : Host R σ) (t : Tool R) (w : σ) :
    ∃ node, (withNode h t w).1 = { t with node } := by
  rw [withNode]
  split
  · exact ⟨_, rfl⟩
  · split
    · exact ⟨_, rfl⟩
    · split <;> exact ⟨_, rfl⟩

theorem withTimer_fst (h : Host R σ) (t : Tool R) (w : σ) :
    ∃ timer, (withTimer h t w).1 = { t with timer } ∧
      (t.settings.useTimer = false → timer = t.timer) := by
  rw [withTimer]
  split
  next huse =>
    refine ⟨_, rfl, fun hoff => ?_⟩
    rw [hoff] at huse
    cases huse
  next => exact ⟨_, rfl, fun _ => rfl⟩

section

variable [Scalar R]

theorem writeOutline_fst (h : Host R σ) (t : Tool R) (w : σ) (outline : Curve R) :
    ∃ node, (writeOutline h t w outline).1 = { t with node } := by
  rw [writeOutline]
  split
  · exact ⟨_, withoutNode_fst h t w⟩
  · obtain ⟨node, hnode⟩ := withNode_fst h t w
    dsimp only
    split <;> exact ⟨node, hnode⟩

/-- A tool that wrote a stroke keeps nothing of it, whatever became of it. -/
theorem commit_fst (h : Host R σ) (t : Tool R) (w : σ) :
    (commit h t w).1 = t.finishing.finished := by
  obtain ⟨node, hnode⟩ :=
    writeOutline_fst h t.finishing w (t.capture.finish (t.tolerance (h.view w)))
  rw [commit_eq]
  dsimp only
  rw [hnode]
  rfl

/-- A release of another button, or at rest, does nothing; any other one ends the gesture. -/
theorem release_tool (h : Host R σ) (t : Tool R) (w : σ) (button : UInt8) :
    (release h t w button).tool = t ∨ (release h t w button).tool.phase = .idle ∧
      (release h t w button).tool.settings = t.settings ∧
      (release h t w button).tool.timer = none := by
  rw [release]
  split
  · exact .inl rfl
  · dsimp only
    split
    · refine .inr ?_
      dsimp only
      rw [commit_fst, withoutTimer_fst]
      exact ⟨rfl, rfl, rfl⟩
    · refine .inr ?_
      dsimp only
      rw [withoutTimer_fst]
      exact ⟨rfl, rfl, rfl⟩

/-- A begin does nothing, or the gesture has begun at the time of the press. -/
theorem begin_tool (h : Host R σ) (t : Tool R) (w : σ) (point : Point R) (time : UInt64) :
    (begin h t w point time).tool = t ∨ t.phase = .idle ∧
      (begin h t w point time).tool.phase = .capturing ∧
      (begin h t w point time).tool.lastSample = some time ∧
      (begin h t w point time).tool.settings = t.settings ∧
      (t.settings.useTimer = false → (begin h t w point time).tool.timer = t.timer) := by
  rw [begin]
  split
  · exact .inl rfl
  next hidle =>
    split
    · exact .inl rfl
    next layer w₁ _ =>
      split
      · exact .inl rfl
      next state w₂ _ =>
        split
        · exact .inl rfl
        · refine .inr ⟨Decidable.of_not_not hidle, ?_⟩
          have hsettings : (t.started (h.view w₂) layer point time).settings = t.settings :=
            syncCapture_settings t
          have hcontrol := control_started t (h.view w₂) layer point time
          have hlast : (t.started (h.view w₂) layer point time).lastSample = some time := rfl
          generalize t.started (h.view w₂) layer point time = s at hsettings hcontrol hlast ⊢
          simp only [control, Prod.mk.injEq] at hcontrol
          obtain ⟨hphase, -, -, htimer, -⟩ := hcontrol
          obtain ⟨timer, hs, hoff⟩ := withTimer_fst h s w₂
          dsimp only
          rw [hs]
          refine ⟨hphase, hlast, hsettings, fun huse => ?_⟩
          exact (hoff (by rw [hsettings, huse])).trans htimer

/-! ## Moves -/

/-- A move is followed by a sample: the tool is capturing without a timer, button 1 is held, the
move does not come too early, and it moves the pen. -/
def Takes (t : Tool R) (view : View R) (point : Point R) (time : UInt64) (buttons : Buttons) :
    Prop :=
  t.phase = .capturing ∧ t.timer = none ∧ buttons.first = true ∧ t.isEarly time = false ∧
    t.pen.moves point view.viewport t.settings = true

/-- A move that is taken records its time with the sample. -/
theorem move_of_takes {h : Host R σ} {t : Tool R} {w : σ} {point : Point R} {time : UInt64}
    {buttons : Buttons} (htakes : t.Takes (h.view w) point time buttons) :
    ∃ pen tolerance,
      let next := t.drawn pen tolerance
      move h t w point time buttons =
        ⟨true, { next with lastSample := some time },
          h.tell (.requestRedraw (Rect.join t.previewRegion next.previewRegion))
            (h.tell (.showPreview next.capture.preview next.capture.settled) w)⟩ := by
  obtain ⟨hphase, htimer, hbutton, hearly, hmoves⟩ := htakes
  refine ⟨(t.pen.pull point (h.view w).viewport t.settings).2, t.tolerance (h.view w), ?_⟩
  rw [move, if_neg (by simp [hphase, htimer, hbutton]), hearly, if_neg Bool.false_ne_true,
    sample_eq]
  dsimp only
  rw [← Pen.not_moves, hmoves]
  rfl

/-- A move that is not taken leaves the times alone. -/
theorem move_of_not_takes {h : Host R σ} {t : Tool R} {w : σ} {point : Point R} {time : UInt64}
    {buttons : Buttons} (htakes : ¬t.Takes (h.view w) point time buttons) :
    ∃ consumed pen, move h t w point time buttons = ⟨consumed, { t with pen }, w⟩ := by
  rw [move]
  split
  · exact ⟨_, t.pen, rfl⟩
  next hready =>
    split
    · exact ⟨_, t.pen, rfl⟩
    next hearly =>
      have hmoves : t.pen.moves point (h.view w).viewport t.settings = false := by
        rw [Bool.eq_false_iff]
        intro hmoves
        simp only [not_or, not_not] at hready
        obtain ⟨hphase, htimer, hbutton⟩ := hready
        exact htakes ⟨hphase, by simpa using htimer, by simpa using hbutton,
          Bool.eq_false_iff.2 hearly, hmoves⟩
      rw [sample_eq]
      dsimp only
      rw [← Pen.not_moves, hmoves]
      exact ⟨_, _, rfl⟩

/-- A tick may take a sample, but records no time. -/
theorem tick_tool (h : Host R σ) (t : Tool R) (w : σ) :
    (tick h t w).tool.phase = t.phase ∧ (tick h t w).tool.lastSample = t.lastSample ∧
      (tick h t w).tool.settings = t.settings ∧ (tick h t w).tool.timer = t.timer := by
  rw [tick]
  split
  · exact ⟨rfl, rfl, rfl, rfl⟩
  next hready =>
    split
    next point _ =>
      have hphase : t.phase = .capturing := Decidable.of_not_not fun hne => hready (.inl hne)
      rw [sample_eq]
      dsimp only
      split
      · exact ⟨rfl, rfl, rfl, rfl⟩
      · exact ⟨hphase.symm, rfl, rfl, rfl⟩
    next => exact ⟨rfl, rfl, rfl, rfl⟩

end

end Tool

/-! ## The times of gestures -/

/-- The call shows a preview. -/
def Exchange.shows : Exchange R → Bool
  | ⟨.showPreview _ _, _⟩ => true
  | _ => false

namespace Tool

variable [DecimalScalar R]

/-- The calls that one more input asks for. -/
def asked (h : Host R σ) (x : Tool R × σ × List (Exchange R)) (input : Input R σ) :
    List (Exchange R) :=
  (step h x input).2.2.drop x.2.2.length

/-- The times of every gesture, all newest first, after one more input.  A press that begins a
gesture is its first time, and every move that a preview is shown for is one more. -/
def timed (h : Host R σ) (x : Tool R × σ × List (Exchange R)) (gestures : List (List UInt64))
    (input : Input R σ) : List (List UInt64) :=
  match input with
  | .event (.press _ time _) =>
    if x.1.phase = .idle ∧ (step h x input).1.phase ≠ .idle then [time] :: gestures else gestures
  | .event (.move _ time _) =>
    if (asked h x input).any Exchange.shows then gestures.modifyHead (time :: ·) else gestures
  | _ => gestures

/-- A run together with the times of its gestures. -/
def clocked (h : Host R σ) (inputs : List (Input R σ))
    (x : (Tool R × σ × List (Exchange R)) × List (List UInt64)) :
    (Tool R × σ × List (Exchange R)) × List (List UInt64) :=
  inputs.foldl (fun x input => (step h x.1 input, timed h x.1 x.2 input)) x

theorem clocked_fst (h : Host R σ) (inputs : List (Input R σ))
    (x : (Tool R × σ × List (Exchange R)) × List (List UInt64)) :
    (clocked h inputs x).1 = run h inputs x.1 := by
  induction inputs generalizing x with
  | nil => rfl
  | cons input inputs ih => exact ih _

/-- The times of every gesture that some inputs lead an unused tool through, all newest first. -/
def gestureTimes (h : Host R σ) (settings : Settings R) (inputs : List (Input R σ)) (w : σ) :
    List (List UInt64) :=
  (clocked h inputs ((ofSettings settings, w, []), [])).2

theorem gestureTimes_concat (h : Host R σ) (settings : Settings R) (inputs : List (Input R σ))
    (w : σ) (input : Input R σ) : gestureTimes h settings (inputs ++ [input]) w =
      timed h (run h inputs (ofSettings settings, w, [])) (gestureTimes h settings inputs w)
        input := by
  rw [gestureTimes, clocked, List.foldl_concat, ← clocked, clocked_fst]
  rfl

/-- The later time comes at least a period after the earlier one. -/
def Apart (period : UInt64) (later earlier : UInt64) : Prop :=
  earlier.toNat + period.toNat ≤ later.toNat

/-- The tool drops moves that come before the period has passed, the times of every gesture are that
far apart, and during a gesture the last one is the reference time. -/
structure Paced (period : UInt64) (t : Tool R) (gestures : List (List UInt64)) : Prop where
  pace : t.settings.pace = (true, period)
  apart : ∀ gesture ∈ gestures, gesture.IsChain (Apart period)
  last : t.phase ≠ .idle → ∃ last earlier older,
    gestures = (last :: earlier) :: older ∧ t.lastSample = some last

variable {period : UInt64} {t t' : Tool R} {gestures : List (List UInt64)} {h : Host R σ}
  {x : Tool R × σ × List (Exchange R)}

omit [DecimalScalar R] in
/-- After the period has passed, a move does not come too early. -/
theorem isEarly_eq_false_iff {last time : UInt64} (hpace : t.settings.pace = (true, period))
    (hlast : t.lastSample = some last) :
    t.isEarly time = false ↔ period.toNat ≤ time.toNat - last.toNat := by
  simp only [Settings.pace, Prod.mk.injEq] at hpace
  obtain ⟨hdrops, hperiod⟩ := hpace
  simp [isEarly, hdrops, hperiod, hlast]

namespace Paced

omit [DecimalScalar R] in
/-- An operation that ends the gesture or leaves the reference time alone. -/
theorem kept (hp : t.Paced period gestures) (hpace : t'.settings.pace = t.settings.pace)
    (hlast : t'.phase ≠ .idle → t.phase ≠ .idle ∧ t'.lastSample = t.lastSample) :
    t'.Paced period gestures where
  pace := hpace.trans hp.pace
  apart := hp.apart
  last hbusy := by
    obtain ⟨hbusy', hsample⟩ := hlast hbusy
    rw [hsample]
    exact hp.last hbusy'

/-- A press that begins a gesture begins a list of times. -/
theorem press (hp : x.1.Paced period gestures) (point : Point R) (time : UInt64) (button : UInt8) :
    (step h x (.event (.press point time button))).1.Paced period
      (timed h x gestures (.event (.press point time button))) := by
  have hstep : (step h x (.event (.press point time button))).1 =
      (handle h.traced x.1 x.2 (.press point time button)).tool := rfl
  rw [timed, hstep, handle]
  by_cases hbutton : button = 1
  · rw [if_pos hbutton]
    rcases begin_tool h.traced x.1 x.2 point time with hkept | ⟨hidle, hphase, hlast, hsettings, -⟩
    · rw [hkept, if_neg fun hbegins => hbegins.2 hbegins.1]
      exact hp
    · rw [if_pos ⟨hidle, by rw [hphase]; decide⟩]
      refine ⟨(congrArg Settings.pace hsettings).trans hp.pace, ?_, fun _ => ⟨_, _, _, rfl, hlast⟩⟩
      exact List.forall_mem_cons.2 ⟨.singleton time, hp.apart⟩
  · rw [if_neg hbutton, if_neg fun hbegins => hbegins.2 hbegins.1]
    exact hp

end Paced

/-- A move that a sample is taken from shows a preview, and its time is the new reference. -/
theorem step_of_takes (gestures : List (List UInt64)) {point : Point R} {time : UInt64}
    {buttons : Buttons} (htakes : x.1.Takes (h.view x.2.1) point time buttons) :
    (∃ current settled region, (step h x (.event (.move point time buttons))).2.2 =
      x.2.2 ++ [⟨.showPreview current settled, ()⟩, ⟨.requestRedraw region, ()⟩]) ∧
    timed h x gestures (.event (.move point time buttons)) = gestures.modifyHead (time :: ·) ∧
    ∃ pen tolerance, (step h x (.event (.move point time buttons))).1 =
      { x.1.drawn pen tolerance with lastSample := some time } := by
  obtain ⟨pen, tolerance, hmove⟩ := move_of_takes (h := h.traced) (w := x.2) htakes
  have hstep : step h x (.event (.move point time buttons)) =
    ((move h.traced x.1 x.2 point time buttons).tool,
      (move h.traced x.1 x.2 point time buttons).world) := rfl
  have hcalls : ∃ current settled region, (step h x (.event (.move point time buttons))).2.2 =
      x.2.2 ++ [⟨.showPreview current settled, ()⟩, ⟨.requestRedraw region, ()⟩] := by
    rw [hstep, hmove]
    exact ⟨_, _, _, List.append_assoc x.2.2 [_] [_]⟩
  refine ⟨hcalls, ?_, pen, tolerance, by rw [hstep, hmove]⟩
  obtain ⟨current, settled, region, hcalls⟩ := hcalls
  have hshown : (asked h x (.event (.move point time buttons))).any Exchange.shows = true := by
    rw [asked, hcalls, List.drop_left]
    rfl
  exact if_pos hshown

/-- Any other move asks for nothing and changes the pen at most. -/
theorem step_of_not_takes (gestures : List (List UInt64)) {point : Point R} {time : UInt64}
    {buttons : Buttons} (htakes : ¬x.1.Takes (h.view x.2.1) point time buttons) :
    timed h x gestures (.event (.move point time buttons)) = gestures ∧
    ∃ pen, (step h x (.event (.move point time buttons))).1 = { x.1 with pen } := by
  obtain ⟨consumed, pen, hmove⟩ := move_of_not_takes (h := h.traced) (w := x.2) htakes
  have hstep : step h x (.event (.move point time buttons)) =
    ((move h.traced x.1 x.2 point time buttons).tool,
      (move h.traced x.1 x.2 point time buttons).world) := rfl
  refine ⟨if_neg ?_, pen, by rw [hstep, hmove]⟩
  rw [asked, hstep, hmove]
  simp

namespace Paced

/-- A move that is taken comes a period after the last sample of its gesture, as the earlier ones
are passed over. -/
theorem move (hp : x.1.Paced period gestures) (hperiod : 0 < period.toNat) (point : Point R)
    (time : UInt64) (buttons : Buttons) :
    (step h x (.event (.move point time buttons))).1.Paced period
      (timed h x gestures (.event (.move point time buttons))) := by
  by_cases htakes : x.1.Takes (h.view x.2.1) point time buttons
  · obtain ⟨-, htimed, pen, tolerance, htool⟩ := step_of_takes gestures htakes
    obtain ⟨hphase, -, -, hearly, -⟩ := htakes
    obtain ⟨last, earlier, older, rfl, hlast⟩ := hp.last (by rw [hphase]; decide)
    have hdistance := (isEarly_eq_false_iff hp.pace hlast).1 hearly
    have hapart : Apart period time last := by
      rw [Apart]
      omega
    obtain ⟨hchain, holder⟩ := List.forall_mem_cons.1 hp.apart
    rw [htimed, htool]
    refine ⟨hp.pace, ?_, fun _ => ⟨_, _, _, rfl, rfl⟩⟩
    exact List.forall_mem_cons.2 ⟨.cons_cons hapart hchain, holder⟩
  · obtain ⟨htimed, pen, htool⟩ := step_of_not_takes gestures htakes
    rw [htimed, htool]
    exact hp.kept rfl fun hbusy => ⟨hbusy, rfl⟩

theorem release (hp : t.Paced period gestures) (w : σ) (h : Host R σ) (button : UInt8) :
    (release h t w button).tool.Paced period gestures := by
  rcases release_tool h t w button with hkept | ⟨hidle, hsettings, -⟩
  · rw [hkept]
    exact hp
  · exact hp.kept (congrArg Settings.pace hsettings) fun hbusy => absurd hidle hbusy

omit [DecimalScalar R] in
theorem cancel (hp : t.Paced period gestures) (w : σ) (h : Host R σ) :
    (cancel h t w).1.Paced period gestures := by
  obtain ⟨region, hcancel⟩ := cancel_fst h t w
  rw [hcancel]
  exact hp.kept rfl fun hbusy => absurd rfl hbusy

/-- A setting keeps the tool paced, as no preference is about the pace. -/
theorem setSetting (hp : t.Paced period gestures) {key : String} {value : Option String}
    (hset : t.setSetting key value = .ok t') : t'.Paced period gestures := by
  rw [Tool.setSetting] at hset
  split at hset
  · cases hset
  next settings hsettings =>
    have hpace : settings.pace = t.settings.pace := Settings.pace_set hsettings
    cases hset
    split
    next hidle =>
      have hcontrol := control_syncCapture { t with settings }
      refine hp.kept ?_ fun hbusy => absurd ((congrArg Prod.fst hcontrol).trans hidle) hbusy
      rw [syncCapture_settings]
      exact hpace
    next => exact hp.kept hpace fun hbusy => ⟨hbusy, rfl⟩

/-- One input keeps the pace. -/
theorem step (hp : x.1.Paced period gestures) (hperiod : 0 < period.toNat) (input : Input R σ) :
    (step h x input).1.Paced period (timed h x gestures input) := by
  cases input with
  | event e =>
    cases e with
    | press point time button => exact hp.press point time button
    | move point time buttons => exact hp.move hperiod point time buttons
    | release point time button => exact hp.release x.2 h.traced button
    | key key =>
      cases key with
      | up | down | left | right =>
        exact hp.kept (Settings.pace_put _ _ _) fun hbusy => ⟨hbusy, rfl⟩
      | escape => exact hp.cancel x.2 h.traced
      | other code => exact hp
  | tick =>
    obtain ⟨hphase, hlast, hsettings, -⟩ := tick_tool h.traced x.1 x.2
    exact hp.kept (congrArg Settings.pace hsettings) fun hbusy => ⟨hphase ▸ hbusy, hlast⟩
  | setSetting key value =>
    rw [Tool.step]
    split
    next t' hset => exact hp.setSetting hset
    next => exact hp
  | cancel => exact hp.cancel x.2 h.traced
  | elapse f => exact hp

/-- So does a run. -/
theorem clocked {x : (Tool R × σ × List (Exchange R)) × List (List UInt64)}
    (hp : x.1.1.Paced period x.2) (hperiod : 0 < period.toNat) (inputs : List (Input R σ)) :
    (clocked h inputs x).1.1.Paced period (clocked h inputs x).2 := by
  induction inputs generalizing x with
  | nil => exact hp
  | cons input inputs ih => exact ih (hp.step hperiod input)

end Paced

/-! ## Runs without a timer -/

/-- Where the timer mode is off, no input starts a timer. -/
theorem timer_step (input : Input R σ) (hoff : x.1.settings.useTimer = false)
    (htimer : x.1.timer = none) : (step h x input).1.timer = none := by
  have hcancel : (cancel h.traced x.1 x.2).1.timer = none := by
    obtain ⟨region, hcancel⟩ := cancel_fst h.traced x.1 x.2
    rw [hcancel]
  cases input with
  | event e =>
    cases e with
    | press point time button =>
      show (handle h.traced x.1 x.2 (.press point time button)).tool.timer = none
      rw [handle]
      split
      · rcases begin_tool h.traced x.1 x.2 point time with hkept | ⟨-, -, -, -, hbegun⟩
        · rw [hkept, htimer]
        · rw [hbegun hoff, htimer]
      · exact htimer
    | move point time buttons =>
      by_cases htakes : x.1.Takes (h.view x.2.1) point time buttons
      · obtain ⟨-, -, pen, tolerance, htool⟩ := step_of_takes [] htakes
        rw [htool]
        exact htimer
      · obtain ⟨-, pen, htool⟩ := step_of_not_takes [] htakes
        rw [htool]
        exact htimer
    | release point time button =>
      rcases release_tool h.traced x.1 x.2 button with hkept | ⟨-, -, hrest⟩
      · exact (congrArg Tool.timer hkept).trans htimer
      · exact hrest
    | key key =>
      cases key with
      | up | down | left | right => exact htimer
      | escape => exact hcancel
      | other code => exact htimer
  | tick => exact (tick_tool h.traced x.1 x.2).2.2.2.trans htimer
  | setSetting key value =>
    rw [step]
    split
    next t' hset =>
      exact (congrArg (fun control => control.2.2.2.1) (control_setSetting hset)).trans htimer
    next => exact htimer
  | cancel => exact hcancel
  | elapse f => exact htimer

/-- A tool without a timer starts none as long as the timer mode is off. -/
theorem timer_run {inputs : List (Input R σ)}
    (hoff : ∀ n, (run h (inputs.take n) x).1.settings.useTimer = false)
    (htimer : x.1.timer = none) : (run h inputs x).1.timer = none := by
  induction inputs generalizing x with
  | nil => exact htimer
  | cons input inputs ih => exact ih (fun n => hoff (n + 1)) (timer_step input (hoff 0) htimer)

/-! ## The distance of samples -/

/-- A tool that drops early moves takes the samples of a gesture at times that are at least a
sampling period apart, counted from its begin.

As long as the timer mode is off, a move during a gesture is sampled and shown if the period has
passed since the last of these times, button 1 is held, and the move moves the pen. -/
theorem run_apart (h : Host R σ) {settings : Settings R} (hdrops : settings.decimateMoves = true)
    (hperiod : 0 < settings.sampleInterval.toNat) (inputs : List (Input R σ)) (w : σ) :
    let x := run h inputs (ofSettings settings, w, [])
    (∀ gesture ∈ gestureTimes h settings inputs w,
      gesture.IsChain (Apart settings.sampleInterval)) ∧
    (x.1.phase ≠ .idle → ∃ last earlier older,
      gestureTimes h settings inputs w = (last :: earlier) :: older ∧
      ((∀ n, (run h (inputs.take n) (ofSettings settings, w, [])).1.settings.useTimer = false) →
        ∀ point time buttons, last.toNat + settings.sampleInterval.toNat ≤ time.toNat →
          buttons.first = true →
          x.1.pen.moves point (h.view x.2.1).viewport x.1.settings = true →
          let move := .event (.move point time buttons)
          (∃ current settled region, (step h x move).2.2 =
            x.2.2 ++ [⟨.showPreview current settled, ()⟩, ⟨.requestRedraw region, ()⟩]) ∧
          gestureTimes h settings (inputs ++ [move]) w = (time :: last :: earlier) :: older)) := by
  intro x
  have hstart : (ofSettings settings).Paced settings.sampleInterval [] :=
    ⟨congrArg (·, settings.sampleInterval) hdrops, List.forall_mem_nil _,
      fun hbusy => absurd rfl hbusy⟩
  have hp : x.1.Paced settings.sampleInterval (gestureTimes h settings inputs w) := by
    have hclocked := Paced.clocked (h := h) (x := ((ofSettings settings, w, []), [])) hstart hperiod
      inputs
    rwa [clocked_fst] at hclocked
  refine ⟨hp.apart, fun hbusy => ?_⟩
  obtain ⟨last, earlier, older, htimes, hlast⟩ := hp.last hbusy
  refine ⟨last, earlier, older, htimes, fun hoff point time buttons hlater hbutton hmoves => ?_⟩
  have htimer : x.1.timer = none := timer_run hoff rfl
  obtain ⟨_, _, -, -, htail⟩ := Follows.run (h := h) (x := (ofSettings settings, w, []))
    (follows_ofSettings settings) inputs
  have hearly : x.1.isEarly time = false := by
    rw [isEarly_eq_false_iff hp.pace hlast]
    omega
  have htakes : x.1.Takes (h.view x.2.1) point time buttons :=
    ⟨(htail.of_busy hbusy).1, htimer, hbutton, hearly, hmoves⟩
  obtain ⟨hcalls, htimed, -⟩ := step_of_takes (gestureTimes h settings inputs w) htakes
  refine ⟨hcalls, ?_⟩
  rw [gestureTimes_concat, htimed, htimes]
  rfl

end Tool

/-! ## A line with dropped moves -/

/-- Settings that drop moves within ten milliseconds of the last sample. -/
def Settings.unhurried : Settings Int :=
  { light .line with decimateMoves := true }

/-- A line that is begun a second time, with moves that come too early. -/
def Input.hurried : List (Input Int Unit) :=
  [.event (.press ⟨0, 0⟩ 5 1), .event (.move ⟨10, 0⟩ 14 ⟨true, false, false⟩),
    .event (.move ⟨10, 0⟩ 15 ⟨true, false, false⟩), .event (.press ⟨0, 0⟩ 20 1),
    .event (.move ⟨20, 10⟩ 3 ⟨true, false, false⟩), .event (.move ⟨20, 10⟩ 30 ⟨true, false, false⟩)]

/-- The moves at 14 and at 3 come too early and are passed over.  The one at 40 does not. -/
theorem Tool.run_apart_hurried :
    let h := Host.window 1 (.ok ())
    let move : Input Int Unit := .event (.move ⟨30, 30⟩ 40 ⟨true, false, false⟩)
    Settings.unhurried.decimateMoves = true ∧ Settings.unhurried.sampleInterval = 10 ∧
      gestureTimes h Settings.unhurried Input.hurried () = [[30, 15, 5]] ∧
      gestureTimes h Settings.unhurried (Input.hurried ++ [move]) () = [[40, 30, 15, 5]] := by
  intro h move
  have htimes : gestureTimes h Settings.unhurried Input.hurried () = [[30, 15, 5]] := by
    decide +kernel
  obtain ⟨last, earlier, older, heq, haccepts⟩ :=
    (run_apart h (rfl : Settings.unhurried.decimateMoves = true) (by decide) Input.hurried ()).2
      (by decide +kernel)
  rw [htimes] at heq
  cases heq
  refine ⟨rfl, rfl, htimes, (haccepts (fun n => ?_) ⟨30, 30⟩ 40 ⟨true, false, false⟩ (by decide)
    rfl (by decide +kernel)).2⟩
  rcases Nat.lt_or_ge n 6 with hn | hn
  · revert n
    decide +kernel
  · rw [List.take_of_length_le hn]
    decide +kernel

end Freehand
