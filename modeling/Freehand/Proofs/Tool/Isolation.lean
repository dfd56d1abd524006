import Freehand.Proofs.Tool.Nodes
import Freehand.Proofs.Tool.Twins

/-!
# Gestures on their own

What a tool does next depends on its past through its settings only, once it is at rest
(`Tool.gestures_isolated`).  Some fields keep what the last gesture left in them: the pen, the
layer, the time of the last sample and the mode of the capture.  A begin overwrites them all
(`Tool.started_congr`), and at rest nothing else reads them.
-/

namespace Freehand

variable {R σ τ : Type} {ρ : σ → τ → Prop}

/-- In related states the hosts look the same and answer every call in the same way. -/
structure Host.Alike (h : Host R σ) (k : Host R τ) (ρ : σ → τ → Prop) : Prop where
  view : ∀ {v w}, ρ v w → h.view v = k.view w
  answer : ∀ {v w}, ρ v w → ∀ c, (h.answer c v).1 = (k.answer c w).1 ∧
    ρ (h.answer c v).2 (k.answer c w).2

namespace Host.Alike

variable {h : Host R σ} {k : Host R τ}

theorem toMatches [Scalar R] (halike : h.Alike k ρ) (m : StrokeMode) : h.Matches k m m ρ where
  viewport hρ := congrArg View.viewport (halike.view hρ)
  toDocument hρ := congrArg View.toDocument (halike.view hρ)
  pointer hρ := congrArg View.pointer (halike.view hρ)
  tolerance hρ := by rw [halike.view hρ]
  answer hρ c _ := halike.answer hρ c
  commit hρ := ⟨_, rfl, (halike.answer hρ _).1.symm, (halike.answer hρ _).2⟩

/-- Hosts that are alike keep the same calls. -/
theorem traced (halike : h.Alike k ρ) :
    h.traced.Alike k.traced fun v w => ρ v.1 w.1 ∧ v.2 = w.2 where
  view hρ := halike.view hρ.1
  answer {v w} hρ c := by
    obtain ⟨hanswer, hρ'⟩ := halike.answer hρ.1 c
    refine ⟨hanswer, hρ', ?_⟩
    show v.2 ++ [⟨c, (h.answer c v.1).1⟩] = w.2 ++ [⟨c, (k.answer c w.1).1⟩]
    rw [hρ.2, hanswer]

theorem answers (halike : h.Alike k ρ) {v : σ} {w : τ} (hρ : ρ v w) (c : Call R) :
    ∃ answer v' w', h.answer c v = (answer, v') ∧ k.answer c w = (answer, w') ∧ ρ v' w' := by
  obtain ⟨hanswer, hρ'⟩ := halike.answer hρ c
  exact ⟨_, _, _, rfl, Prod.ext hanswer.symm rfl, hρ'⟩

end Host.Alike

@[simp]
theorem Capture.mode_ofMode (m : StrokeMode) : (Capture.ofMode m : Capture R).mode = m := by
  cases m <;> rfl

theorem Capture.reset_ofMode (m : StrokeMode) :
    (Capture.ofMode m : Capture R).reset = .ofMode m := by
  rw [reset, mode_ofMode]

namespace Tool

/-! ## Tools at rest -/

/-- The tool is in no gesture, and has no node and no timer. -/
structure Rested (t : Tool R) : Prop where
  phase : t.phase = .idle
  node : t.node = none
  timer : t.timer = none

/-- The tools are the same, or both at rest with the same settings. -/
inductive Alike (t u : Tool R) : Prop where
  | same (h : t = u)
  | rested (ht : t.Rested) (hu : u.Rested) (hsettings : t.settings = u.settings)

/-- The tools consumed the same and are alike afterwards, and so are their hosts. -/
structure AlikeReactions (ρ : σ → τ → Prop) (r : Reaction R σ) (r' : Reaction R τ) : Prop where
  consumed : r.consumed = r'.consumed
  tools : Alike r.tool r'.tool
  worlds : ρ r.world r'.world

theorem TwinReactions.alike {m : StrokeMode} {r : Reaction R σ} {r' : Reaction R τ}
    (h : TwinReactions m m ρ r r') : AlikeReactions ρ r r' := by
  obtain ⟨hconsumed, rfl, htool, hρ⟩ := h
  exact ⟨hconsumed, .same htool.symm, hρ⟩

variable {t u : Tool R} {v : σ} {w : τ} {h : Host R σ} {k : Host R τ}

theorem syncCapture_settings (t : Tool R) : t.syncCapture.settings = t.settings := by
  rw [syncCapture]
  split <;> rfl

theorem Rested.congr (hrested : t.Rested) (hcontrol : u.control = t.control) : u.Rested := by
  simp only [control, Prod.mk.injEq] at hcontrol
  obtain ⟨hphase, -, hnode, htimer, -⟩ := hcontrol
  exact ⟨hphase.trans hrested.phase, hnode.trans hrested.node, htimer.trans hrested.timer⟩

/-- A tool at rest forgets on a cancellation what it still holds, and does nothing else. -/
theorem cancel_of_rested (hrested : t.Rested) (h : Host R σ) (v : σ) :
    cancel h t v = (t.abandoned, v) := by
  simp only [cancel_eq, withoutTimer, hrested.timer, withoutNode, hrested.node, withoutPreview,
    hrested.phase, if_pos]

theorem Rested.abandoned (hrested : t.Rested) : t.abandoned.Rested :=
  ⟨rfl, hrested.node, hrested.timer⟩

/-- After a cancellation a tool is at rest, whatever it was doing. -/
theorem cancel_rested (h : Host R σ) (t : Tool R) (v : σ) : (cancel h t v).1.Rested := by
  have htimer : (withoutTimer h t v).1.timer = none := by
    rw [withoutTimer]
    split
    next => rfl
    next hnone => exact hnone
  have hnode : ∀ (t : Tool R) (v : σ), (withoutNode h t v).1.timer = t.timer ∧
      (withoutNode h t v).1.node = none := by
    intro t v
    rw [withoutNode]
    split
    next => exact ⟨rfl, rfl⟩
    next hnone => exact ⟨rfl, hnone⟩
  have hpreview : ∀ (t : Tool R) (v : σ), (withoutPreview h t v).1.timer = t.timer ∧
      (withoutPreview h t v).1.node = t.node := by
    intro t v
    rw [withoutPreview]
    split <;> exact ⟨rfl, rfl⟩
  rw [cancel_eq]
  exact ⟨rfl, (hpreview _ _).2.trans (hnode _ _).2,
    (hpreview _ _).1.trans ((hnode _ _).1.trans htimer)⟩

/-- A second cancellation does nothing. -/
theorem cancel_cancel (h : Host R σ) (t : Tool R) (v : σ) :
    cancel h (cancel h t v).1 (cancel h t v).2 = cancel h t v := by
  rw [cancel_of_rested (cancel_rested h t v), cancel_eq]
  simp only [Tool.abandoned, Capture.reset, Capture.mode_ofMode]

section

variable [Scalar R]

/-- A begin takes nothing from the tool but its settings and its timer. -/
theorem started_congr (hsettings : t.settings = u.settings) (htimer : t.timer = u.timer)
    (view : View R) (layer : LayerHandle) (point : Point R) (time : UInt64) :
    t.started view layer point time = u.started view layer point time := by
  have hstarted : ∀ t : Tool R, t.started view layer point time =
      { settings := t.settings
        pen := ((Pen.atRest point view.viewport).pull point view.viewport t.settings).2
        capture := .ofMode t.settings.mode
        phase := .capturing
        layer := some layer
        node := none
        timer := t.timer
        dragging := false
        lastSample := some time
        previewRegion := none } := by
    intro t
    rw [started, syncCapture]
    split
    next hmode => simp only [Capture.reset, hmode]
    next => simp only [Capture.reset_ofMode]
  rw [hstarted, hstarted, hsettings, htimer]

/-- Idle tools begin alike, and are the same where they begin a gesture. -/
theorem Alike.begin (htools : Alike t u) (ht : t.phase = .idle) (hu : u.phase = .idle)
    (hsettings : t.settings = u.settings) (htimer : t.timer = u.timer) (halike : h.Alike k ρ)
    (hρ : ρ v w) (point : Point R) (time : UInt64) :
    AlikeReactions ρ (begin h t v point time) (begin k u w point time) := by
  obtain ⟨layer, v₁, w₁, hlayer, hlayer', hρ₁⟩ := halike.answers hρ .currentLayer
  rw [Tool.begin, Tool.begin, if_neg (not_not.2 ht), if_neg (not_not.2 hu), hlayer, hlayer']
  cases layer with
  | none => exact ⟨rfl, htools, hρ₁⟩
  | some layer =>
    obtain ⟨state, v₂, w₂, hstate, hstate', hρ₂⟩ := halike.answers hρ₁ (.layerState layer)
    dsimp only
    rw [hstate, hstate']
    cases state with
    | error e => exact ⟨rfl, htools, hρ₂⟩
    | ok state =>
      dsimp only
      split
      · exact ⟨rfl, htools, hρ₂⟩
      · rw [started_congr hsettings htimer, halike.view hρ₂]
        generalize u.started (k.view w₂) layer point time = s
        rw [withTimer, withTimer]
        split
        · obtain ⟨timer, v₃, w₃, htimer, htimer', hρ₃⟩ :=
            halike.answers hρ₂ (.startTimer s.settings.sampleInterval)
          rw [htimer, htimer']
          exact ⟨rfl, .same rfl, hρ₃⟩
        · exact ⟨rfl, .same rfl, hρ₂⟩

/-- Tools at rest do nothing on an event that begins no gesture. -/
theorem Rested.handle_alike (ht : t.Rested) (hu : u.Rested) (hsettings : t.settings = u.settings)
    (halike : h.Alike k ρ) (hρ : ρ v w) (e : Event R) :
    AlikeReactions ρ (handle h t v e) (handle k u w e) := by
  have hrested : Alike t u := .rested ht hu hsettings
  have hcapturing : t.phase ≠ .capturing ∧ u.phase ≠ .capturing := by
    rw [ht.phase, hu.phase]
    decide
  cases e with
  | press point time button =>
    rw [handle, handle]
    split
    · exact hrested.begin ht.phase hu.phase hsettings (ht.timer.trans hu.timer.symm) halike hρ point
        time
    · exact ⟨rfl, hrested, hρ⟩
  | move point time buttons =>
    rw [handle, handle, move, move, if_pos (.inl hcapturing.1), if_pos (.inl hcapturing.2)]
    exact ⟨rfl, hrested, hρ⟩
  | release point time button =>
    rw [handle, handle, release, release, if_pos (.inr ht.phase), if_pos (.inr hu.phase)]
    exact ⟨rfl, hrested, hρ⟩
  | key key =>
    cases key with
    | up | down | left | right =>
      simp only [handle, press, nudged, hsettings]
      exact ⟨rfl, .rested (ht.congr rfl) (hu.congr rfl) rfl, hρ⟩
    | escape =>
      simp only [handle, press, cancel_of_rested ht, cancel_of_rested hu, ht.phase, hu.phase]
      exact ⟨rfl, .rested ht.abandoned hu.abandoned hsettings, hρ⟩
    | other code => exact ⟨rfl, hrested, hρ⟩

/-- Tools that are alike handle an event alike on hosts that are. -/
theorem Alike.handle (htools : Alike t u) (halike : h.Alike k ρ) (hρ : ρ v w) (e : Event R) :
    AlikeReactions ρ (handle h t v e) (handle k u w e) := by
  cases htools with
  | rested ht hu hsettings => exact ht.handle_alike hu hsettings halike hρ e
  | same heq =>
    subst heq
    have htwins : Twins t.settings.mode t.settings.mode ρ (t, v) (t, w) := ⟨rfl, rfl, hρ⟩
    cases e with
    | press point time button =>
      rw [Tool.handle, Tool.handle]
      split
      · by_cases hidle : t.phase = .idle
        · exact (Alike.same rfl).begin hidle hidle rfl rfl halike hρ point time
        · rw [Tool.begin, Tool.begin, if_pos hidle, if_pos hidle]
          exact ⟨rfl, .same rfl, hρ⟩
      · exact ⟨rfl, .same rfl, hρ⟩
    | move point time buttons =>
      exact (htwins.move (halike.toMatches _) point time buttons).alike
    | release point time button => exact (htwins.release (halike.toMatches _) button).alike
    | key key => exact (htwins.press (halike.toMatches _) key).alike

theorem Alike.tick (htools : Alike t u) (halike : h.Alike k ρ) (hρ : ρ v w) :
    AlikeReactions ρ (tick h t v) (tick k u w) := by
  cases htools with
  | same heq =>
    subst heq
    have htwins : Twins t.settings.mode t.settings.mode ρ (t, v) (t, w) := ⟨rfl, rfl, hρ⟩
    exact (htwins.tick (halike.toMatches _)).alike
  | rested ht hu hsettings =>
    rw [Tool.tick, Tool.tick, if_pos (.inl (by rw [ht.phase]; decide)),
      if_pos (.inl (by rw [hu.phase]; decide))]
    exact ⟨rfl, .rested ht hu hsettings, hρ⟩

theorem Alike.cancel (htools : Alike t u) (halike : h.Alike k ρ) (hρ : ρ v w) :
    Alike (cancel h t v).1 (cancel k u w).1 ∧ ρ (cancel h t v).2 (cancel k u w).2 := by
  cases htools with
  | same heq =>
    subst heq
    have htwins : Twins t.settings.mode t.settings.mode ρ (t, v) (t, w) := ⟨rfl, rfl, hρ⟩
    obtain ⟨hmode, htool, hρ'⟩ := htwins.cancel (halike.toMatches _)
    refine ⟨.same ?_, hρ'⟩
    rw [htool, ← hmode, inMode_self]
  | rested ht hu hsettings =>
    rw [cancel_of_rested ht, cancel_of_rested hu]
    exact ⟨.rested ht.abandoned hu.abandoned hsettings, hρ⟩

end

theorem Rested.setSetting [DecimalScalar R] (ht : t.Rested) (key : String) (value : Option String) :
    t.setSetting key value =
      (t.settings.set key value).map fun settings => { t with settings }.syncCapture := by
  rw [Tool.setSetting]
  cases t.settings.set key value with
  | error e => rfl
  | ok settings =>
    dsimp only
    rw [if_pos ht.phase]
    rfl

/-- Alike tools take the same settings. -/
theorem Alike.setSetting [DecimalScalar R] (htools : Alike t u) (key : String)
    (value : Option String) :
    (∃ e, t.setSetting key value = .error e ∧ u.setSetting key value = .error e) ∨
      ∃ t' u', t.setSetting key value = .ok t' ∧ u.setSetting key value = .ok u' ∧ Alike t' u' := by
  cases htools with
  | same heq =>
    subst heq
    cases t.setSetting key value with
    | error e => exact .inl ⟨e, rfl, rfl⟩
    | ok t' => exact .inr ⟨t', t', rfl, rfl, .same rfl⟩
  | rested ht hu hsettings =>
    rw [ht.setSetting, hu.setSetting, hsettings]
    cases u.settings.set key value with
    | error e => exact .inl ⟨e, rfl, rfl⟩
    | ok settings =>
      refine .inr ⟨_, _, rfl, rfl, .rested (ht.congr ?_) (hu.congr ?_) ?_⟩
      · exact control_syncCapture _
      · exact control_syncCapture _
      · rw [syncCapture_settings, syncCapture_settings]

/-! ## Runs -/

variable [DecimalScalar R]

/-- Alike tools on alike hosts, which made the same calls, reply alike and stay alike. -/
theorem Alike.step (halike : h.Alike k ρ) {x : Tool R × σ × List (Exchange R)}
    {y : Tool R × τ × List (Exchange R)} (htools : Alike x.1 y.1) (hρ : ρ x.2.1 y.2.1)
    (hcalls : x.2.2 = y.2.2) {i : Input R σ} {j : Input R τ} (hinput : i.Alike ρ j) :
    reply h x i = reply k y j ∧ Alike (step h x i).1 (step k y j).1 ∧
      ρ (step h x i).2.1 (step k y j).2.1 ∧ (step h x i).2.2 = (step k y j).2.2 := by
  cases hinput with
  | event e =>
    obtain ⟨hconsumed, htools', hρ', hcalls'⟩ := htools.handle halike.traced ⟨hρ, hcalls⟩ e
    exact ⟨congrArg Reply.consumed hconsumed, htools', hρ', hcalls'⟩
  | tick =>
    obtain ⟨hconsumed, htools', hρ', hcalls'⟩ := htools.tick halike.traced ⟨hρ, hcalls⟩
    exact ⟨congrArg Reply.consumed hconsumed, htools', hρ', hcalls'⟩
  | setSetting key value =>
    rw [reply, reply, Tool.step, Tool.step]
    rcases htools.setSetting key value with ⟨e, hset, hset'⟩ | ⟨t', u', hset, hset', htools'⟩
    · rw [hset, hset']
      exact ⟨rfl, htools, hρ, hcalls⟩
    · rw [hset, hset']
      exact ⟨rfl, htools', hρ, hcalls⟩
  | cancel =>
    obtain ⟨htools', hρ', hcalls'⟩ := htools.cancel halike.traced ⟨hρ, hcalls⟩
    exact ⟨rfl, htools', hρ', hcalls'⟩
  | elapse hf => exact ⟨rfl, htools, hf _ _ hρ, hcalls⟩

theorem Alike.run (halike : h.Alike k ρ) {inputs : List (Input R σ)} {inputs' : List (Input R τ)}
    (hinputs : List.Forall₂ (Input.Alike ρ) inputs inputs') {x : Tool R × σ × List (Exchange R)}
    {y : Tool R × τ × List (Exchange R)} (htools : Alike x.1 y.1) (hρ : ρ x.2.1 y.2.1)
    (hcalls : x.2.2 = y.2.2) :
    replies h inputs x = replies k inputs' y ∧ (run h inputs x).2.2 = (run k inputs' y).2.2 := by
  induction hinputs generalizing x y with
  | nil => exact ⟨rfl, hcalls⟩
  | cons hinput _ ih =>
    obtain ⟨hreply, htools', hρ', hcalls'⟩ := htools.step halike hρ hcalls hinput
    obtain ⟨hreplies, hrun⟩ := ih htools' hρ' hcalls'
    exact ⟨congrArg₂ List.cons hreply hreplies, hrun⟩

/-! ## What an idle tool holds -/

/-- Only a gesture with samples has a preview, and an idle tool has captured nothing. -/
structure Tidy (t : Tool R) : Prop where
  region : t.dragging = false → t.previewRegion = none
  dragging : t.phase = .idle → t.dragging = false
  capture : t.phase = .idle → t.capture = .ofMode t.capture.mode

omit [DecimalScalar R] in
theorem Tidy.congr (htidy : t.Tidy) (hcontrol : u.control = t.control)
    (hdrawing : u.drawing = t.drawing) : u.Tidy := by
  simp only [control, drawing, Prod.mk.injEq] at hcontrol hdrawing
  obtain ⟨hphase, -, -, -, hdragging⟩ := hcontrol
  obtain ⟨hcapture, hregion⟩ := hdrawing
  constructor
  · rw [hdragging, hregion]
    exact htidy.region
  · rw [hphase, hdragging]
    exact htidy.dragging
  · rw [hphase, hcapture]
    exact htidy.capture

omit [DecimalScalar R] in
/-- A tool that captured nothing and has no preview is tidy as long as it does not drag. -/
theorem Tidy.of_drawing {m : StrokeMode} (hdragging : t.dragging = false)
    (hdrawing : t.drawing = (.ofMode m, none)) : t.Tidy := by
  simp only [drawing, Prod.mk.injEq] at hdrawing
  obtain ⟨hcapture, hregion⟩ := hdrawing
  exact ⟨fun _ => hregion, fun _ => hdragging, fun _ => by rw [hcapture, Capture.mode_ofMode]⟩

omit [DecimalScalar R] in
/-- An act that begins a gesture or ends one leaves nothing of an earlier one. -/
theorem Act.tidy [Scalar R] {b : Bool} {calls : List (Exchange R)} (hact : Act t u b calls)
    (htidy : t.Tidy) : u.Tidy := by
  cases hact with
  | kept _ hcontrol hdrawing => exact htidy.congr hcontrol hdrawing
  | refused _ hcontrol hdrawing => exact htidy.congr hcontrol hdrawing
  | emptied _ hphase _ hdragging hdrawing =>
    have hstill : t.dragging = false := htidy.dragging hphase
    rw [htidy.region hstill] at hdrawing
    exact .of_drawing (hdragging.trans hstill) hdrawing
  | begun _ _ hcontrol hdrawing =>
    exact .of_drawing (congrArg (fun control => control.2.2.2.2) hcontrol) hdrawing
  | sampled _ _ hcontrol =>
    simp only [control, Prod.mk.injEq] at hcontrol
    obtain ⟨hphase, -, -, -, hdragging⟩ := hcontrol
    exact ⟨by simp [hdragging], by simp [hphase], by simp [hphase]⟩
  | released _ hdragging hcontrol hdrawing =>
    rw [htidy.region hdragging] at hdrawing
    exact .of_drawing (congrArg (fun control => control.2.2.2.2) hcontrol) hdrawing
  | committed _ _ _ _ hcontrol hdrawing =>
    exact .of_drawing (congrArg (fun control => control.2.2.2.2) hcontrol) hdrawing
  | cancelled _ hcontrol hdrawing =>
    exact .of_drawing (congrArg (fun control => control.2.2.2.2) hcontrol) hdrawing

/-- What a tool that was unused has become after some inputs. -/
def after (h : Host R σ) (settings : Settings R) (inputs : List (Input R σ)) (v : σ) : Tool R :=
  (run h inputs (ofSettings settings, v, [])).1

theorem after_tidy (h : Host R σ) (settings : Settings R) (inputs : List (Input R σ)) (v : σ) :
    (after h settings inputs v).Tidy :=
  run_induct (motive := fun t _ => t.Tidy) settings (.of_drawing rfl rfl)
    (fun htidy hact => hact.tidy htidy) h inputs v

theorem after_rested (h : Host R σ) (settings : Settings R) (inputs : List (Input R σ)) (v : σ)
    (hidle : (after h settings inputs v).phase = .idle) : (after h settings inputs v).Rested := by
  obtain ⟨_, _, -, -, htail⟩ := Follows.run (h := h) (x := (ofSettings settings, v, []))
    (follows_ofSettings settings) inputs
  obtain ⟨-, hnode, htimer, -⟩ := htail.of_idle hidle
  exact ⟨hidle, hnode, htimer⟩

/-- Two tools that are at rest after any past, with the same settings, reply the same to any
further inputs and make the same calls on hosts that are alike.

At rest a tool has no timer, no node, no preview and no samples.  Cancelling twice is cancelling
once. -/
theorem gestures_isolated {σ₁ σ₂ : Type} (h₁ : Host R σ₁) (h₂ : Host R σ₂)
    (settings₁ settings₂ : Settings R) (past₁ : List (Input R σ₁)) (past₂ : List (Input R σ₂))
    (v₁ : σ₁) (v₂ : σ₂) :
    let t := after h₁ settings₁ past₁ v₁
    let u := after h₂ settings₂ past₂ v₂
    (t.phase = .idle → u.phase = .idle → t.settings = u.settings →
      ∀ {σ τ : Type} {ρ : σ → τ → Prop} (h : Host R σ) (k : Host R τ), h.Alike k ρ →
      ∀ v w, ρ v w → ∀ inputs inputs', List.Forall₂ (Input.Alike ρ) inputs inputs' →
        replies h inputs (t, v, []) = replies k inputs' (u, w, []) ∧
        (run h inputs (t, v, [])).2.2 = (run k inputs' (u, w, [])).2.2) ∧
    (t.phase = .idle → t.timer = none ∧ t.node = none ∧ t.previewRegion = none ∧
      t.capture = .ofMode t.capture.mode ∧ t.capture.windowLength = 0) ∧
    ∀ {σ : Type} (h : Host R σ) (v : σ) (calls : List (Exchange R)),
      step h (step h (t, v, calls) .cancel) .cancel = step h (t, v, calls) .cancel := by
  intro t u
  have htidy : t.Tidy := after_tidy h₁ settings₁ past₁ v₁
  refine ⟨fun ht hu hsettings σ τ ρ h k halike v w hρ inputs inputs' hinputs => ?_,
    fun ht => ?_, fun h v calls => cancel_cancel h.traced t (v, calls)⟩
  · have htools : Alike t u :=
      .rested (after_rested h₁ settings₁ past₁ v₁ ht) (after_rested h₂ settings₂ past₂ v₂ hu)
        hsettings
    exact htools.run halike hinputs hρ rfl
  · have hrested : t.Rested := after_rested h₁ settings₁ past₁ v₁ ht
    have hcapture : t.capture = .ofMode t.capture.mode := htidy.capture ht
    refine ⟨hrested.timer, hrested.node, htidy.region (htidy.dragging ht), hcapture, ?_⟩
    rw [hcapture]
    cases t.capture.mode <;> rfl

end Tool

/-! ## A line after another one -/

/-- A gesture that is cancelled after a sample. -/
def Input.abandonedStroke : List (Input Int Unit) :=
  [.event (.press ⟨5, 5⟩ 0 1), .event (.move ⟨10, 0⟩ 10 ⟨true, false, false⟩), .cancel]

deriving instance DecidableEq for Settings

theorem Host.alike_self {R σ : Type} (h : Host R σ) : h.Alike h Eq where
  view hρ := by rw [hρ]
  answer hρ _ := by
    rw [hρ]
    exact ⟨rfl, rfl⟩

/-- A line that follows a cancelled gesture is drawn like one that follows a committed one. -/
theorem Tool.gestures_isolated_strokes :
    let h := Host.window 1 (.ok ())
    let t := after h (Settings.light .line) Input.abandonedStroke ()
    let u := after h (Settings.light .line) Input.stroke ()
    t.phase = .idle ∧ u.phase = .idle ∧ t.settings = u.settings ∧
      (run h Input.stroke (t, (), [])).2.2 = (run h Input.stroke (u, (), [])).2.2 := by
  intro h t u
  have ht : t.phase = .idle := by decide +kernel
  have hu : u.phase = .idle := by decide +kernel
  have hsettings : t.settings = u.settings := by decide +kernel
  have hinputs : List.Forall₂ (Input.Alike Eq) Input.stroke Input.stroke :=
    .cons (.event _) (.cons (.event _) (.cons (.event _) (.cons (.event _) .nil)))
  have hisolated := (gestures_isolated h h (Settings.light .line) (Settings.light .line)
    Input.abandonedStroke Input.stroke () ()).1 ht hu hsettings h h h.alike_self () () rfl _ _
    hinputs
  -- the tools are spelled out, so that nothing is evaluated to compare them
  subst t u
  exact ⟨ht, hu, hsettings, hisolated.2⟩

end Freehand
