import Freehand.Proofs.Tool.Protocol

/-!
# What one input does

An input takes a tool to its next state by one of eight acts, and each act makes its own calls
(`Tool.act_step`).  Properties of runs are proved act by act.

* Three acts show nothing: the preview is kept, a tool at rest gets an empty capture, a begin is
  refused.
* A gesture begins with an empty capture and without a preview.
* A sample is captured and fitted.  The new preview is shown, and its area is repainted together
  with that of the preview before.
* A gesture is released before its first sample, released with a stroke, or abandoned.  An abandoned
  preview is taken down, and the area that it covered repainted.
-/

namespace Freehand

open Exchange

variable {R σ : Type}

/-- The input abandons a gesture. -/
def Input.abandons : Input R σ → Bool
  | .cancel | .event (.key .escape) => true
  | _ => false

namespace Tool

/-- The calls that take a tool from `t` to `t'` by one input, which may have abandoned a gesture. -/
inductive Act [Scalar R] (t t' : Tool R) : (abandoned : Bool) → List (Exchange R) → Prop where
  | kept (b : Bool) (hcontrol : t'.control = t.control) (hdrawing : t'.drawing = t.drawing) :
      Act t t' b []
  | emptied (b : Bool) {mode : StrokeMode} (hphase : t.phase = .idle) (hphase' : t'.phase = .idle)
      (hdragging : t'.dragging = t.dragging)
      (hdrawing : t'.drawing = (.ofMode mode, t.previewRegion)) : Act t t' b []
  | refused {calls : List (Exchange R)} (h : Refused calls) (hcontrol : t'.control = t.control)
      (hdrawing : t'.drawing = t.drawing) : Act t t' false calls
  | begun {layer : LayerHandle} {timer : Option TimerId} {mode : StrokeMode}
      {calls : List (Exchange R)} (hphase : t.phase = .idle) (h : Begun layer timer calls)
      (hcontrol : t'.control = (.capturing, some layer, none, timer, false))
      (hdrawing : t'.drawing = (.ofMode mode, none)) : Act t t' false calls
  | sampled {pen : Pen R} {tolerance : R} {c : Capture R} (hphase : t.phase = .capturing)
      (hc : c = (t.capture.addSample pen t.settings).fit tolerance)
      (hcontrol : t'.control = (.capturing, t.layer, t.node, t.timer, true))
      (hdrawing : t'.drawing = (c, c.preview.bounds)) :
      Act t t' false [⟨.showPreview c.preview c.settled, ()⟩,
        ⟨.requestRedraw (Rect.join t.previewRegion c.preview.bounds), ()⟩]
  | released (hphase : t.phase ≠ .idle) (hdragging : t.dragging = false)
      (hcontrol : t'.control = (.idle, t.layer, none, none, false))
      (hdrawing : t'.drawing = (t.capture.reset, t.previewRegion)) :
      Act t t' false (stop t.timer ++ [⟨.clearPreview, ()⟩])
  | committed {layer : LayerHandle} {tolerance : R} {calls : List (Exchange R)} {label : String}
      {answer : Except DocumentError Unit} (hphase : t.phase ≠ .idle)
      (hdragging : t.dragging = true)
      (h : Written layer calls) (hdrawn : Drawn calls)
      (hcontrol : t'.control = (.idle, none, none, none, false))
      (hdrawing : t'.drawing = (t.capture.reset, none)) :
      Act t t' false (stop t.timer ++ ⟨.clearPreview, ()⟩ :: (calls ++ [⟨.commit label, answer⟩,
        ⟨.requestRedraw (Rect.join t.previewRegion (t.capture.finish tolerance).bounds), ()⟩]))
  | cancelled (hphase : t.phase ≠ .idle) (hcontrol : t'.control = (.idle, none, none, none, false))
      (hdrawing : t'.drawing = (t.capture.reset, none)) :
      Act t t' true (stop t.timer ++ [⟨.clearPreview, ()⟩, ⟨.requestRedraw t.previewRegion, ()⟩])

/-- The calls since `w` took the tool from `t` to `t'`. -/
def Acts [Scalar R] (b : Bool) (t : Tool R) (w : σ × List (Exchange R)) (t' : Tool R)
    (w' : σ × List (Exchange R)) : Prop :=
  ∃ calls, w'.2 = w.2 ++ calls ∧ Act t t' b calls

variable [Scalar R] {b : Bool} {t t' t'' : Tool R} {calls : List (Exchange R)} {h : Host R σ}
  {w : σ × List (Exchange R)}

/-- What an act leaves is the tool up to its settings, its pen and its clock. -/
theorem Act.congr (hact : Act t t' b calls) (hcontrol : t''.control = t'.control)
    (hdrawing : t''.drawing = t'.drawing) : Act t t'' b calls := by
  cases hact with
  | kept b hcontrol' hdrawing' =>
    exact .kept b (hcontrol.trans hcontrol') (hdrawing.trans hdrawing')
  | emptied b hphase hphase' hdragging hdrawing' =>
    simp only [control, Prod.mk.injEq] at hcontrol
    obtain ⟨hphase'', -, -, -, hdragging'⟩ := hcontrol
    exact .emptied b hphase (hphase''.trans hphase') (hdragging'.trans hdragging)
      (hdrawing.trans hdrawing')
  | refused h hcontrol' hdrawing' =>
    exact .refused h (hcontrol.trans hcontrol') (hdrawing.trans hdrawing')
  | begun hphase h hcontrol' hdrawing' =>
    exact .begun hphase h (hcontrol.trans hcontrol') (hdrawing.trans hdrawing')
  | sampled hphase hc hcontrol' hdrawing' =>
    exact .sampled hphase hc (hcontrol.trans hcontrol') (hdrawing.trans hdrawing')
  | released hphase hdragging hcontrol' hdrawing' =>
    exact .released hphase hdragging (hcontrol.trans hcontrol') (hdrawing.trans hdrawing')
  | committed hphase hdragging h hdrawn hcontrol' hdrawing' =>
    exact .committed hphase hdragging h hdrawn (hcontrol.trans hcontrol')
      (hdrawing.trans hdrawing')
  | cancelled hphase hcontrol' hdrawing' =>
    exact .cancelled hphase (hcontrol.trans hcontrol') (hdrawing.trans hdrawing')

/-! ## One act for every operation -/

theorem Acts.kept (b : Bool) (hcontrol : t'.control = t.control)
    (hdrawing : t'.drawing = t.drawing) : Acts b t w t' w :=
  ⟨[], (List.append_nil _).symm, .kept b hcontrol hdrawing⟩

theorem acts_begin (htail : t.Stands calls) (point : Point R) (time : UInt64) :
    Acts false t w (begin h.traced t w point time).tool (begin h.traced t w point time).world := by
  by_cases hidle : t.phase = .idle
  · obtain ⟨-, -, hnone, -⟩ := htail.of_idle hidle
    obtain ⟨t', w', calls', heq, hw', ⟨rfl, hrefused⟩ | ⟨layer, timer, hbegun, ht', hdrawing⟩⟩ :=
      begin_traced h w hidle hnone point time
    · rw [heq]
      exact ⟨calls', hw', .refused hrefused rfl rfl⟩
    · rw [heq]
      exact ⟨calls', hw', .begun hidle hbegun ht' hdrawing⟩
  · rw [begin, if_pos hidle]
    exact .kept false rfl rfl

theorem acts_sample (hphase : t.phase = .capturing) (point : Point R) :
    Acts false t w (sample h.traced t w point).tool (sample h.traced t w point).world := by
  rcases sample_cases h.traced t w point with ⟨pen, heq⟩ |
    ⟨t', pen, tolerance, c, hc, heq, hcontrol, hdrawing⟩
  · rw [heq]
    exact .kept false rfl rfl
  · rw [heq]
    refine ⟨_, ?_, .sampled hphase hc hcontrol hdrawing⟩
    exact List.append_assoc w.2 [_] [_]

/-- A move draws if the tool takes a sample, and leaves everything alone otherwise. -/
theorem acts_move (point : Point R) (time : UInt64) (buttons : Buttons) :
    Acts false t w (move h.traced t w point time buttons).tool
      (move h.traced t w point time buttons).world := by
  rw [move]
  split
  · exact .kept false rfl rfl
  next hphase =>
    split
    · exact .kept false rfl rfl
    · have hcapturing : t.phase = .capturing :=
        Decidable.of_not_not fun hne => hphase (.inl hne)
      obtain ⟨calls, hw, hact⟩ := acts_sample (h := h) (w := w) hcapturing point
      dsimp only
      split
      · exact ⟨calls, hw, hact.congr rfl rfl⟩
      · exact ⟨calls, hw, hact⟩

theorem acts_tick : Acts false t w (tick h.traced t w).tool (tick h.traced t w).world := by
  rw [tick]
  split
  · exact .kept false rfl rfl
  next hphase =>
    split
    next point _ => exact acts_sample (Decidable.of_not_not fun hne => hphase (.inl hne)) point
    next => exact .kept false rfl rfl

/-- A release stops the timer and clears the preview, and finishes a stroke that was begun. -/
theorem acts_release (htail : t.Stands calls) (button : UInt8) :
    Acts false t w (release h.traced t w button).tool (release h.traced t w button).world := by
  by_cases hends : button = 1 ∧ t.phase ≠ .idle
  · obtain ⟨rfl, hphase⟩ := hends
    obtain ⟨-, hnode, layer, hlayer, -⟩ := htail.of_busy hphase
    cases hdragging : t.dragging with
    | false =>
      obtain ⟨t', w', heq, hw', hcontrol, hdrawing⟩ :=
        release_traced_of_still h w hphase hnode hdragging
      rw [heq]
      exact ⟨_, hw', .released hphase hdragging hcontrol hdrawing⟩
    | true =>
      obtain ⟨t', w', tolerance, calls', label, answer, heq, hw', hwritten, hdrawn, hcontrol,
        hdrawing⟩ := release_traced_of_dragging h w hphase hnode hdragging hlayer
      rw [heq]
      exact ⟨_, hw', .committed hphase hdragging hwritten hdrawn hcontrol hdrawing⟩
  · have hneither : button ≠ 1 ∨ t.phase = .idle :=
      (Decidable.not_and_iff_not_or_not.1 hends).imp_right Decidable.of_not_not
    rw [release, if_pos hneither]
    exact .kept false rfl rfl

theorem acts_cancel (htail : t.Stands calls) :
    Acts true t w (cancel h.traced t w).1 (cancel h.traced t w).2 := by
  obtain ⟨t', w', heq, hcontrol, hdrawing, hw'⟩ := cancel_traced h w htail.node_eq
  rw [heq]
  by_cases hphase : t.phase = .idle
  · rw [if_pos hphase, (htail.of_idle hphase).2.2.1] at hw'
    rw [if_pos hphase] at hdrawing
    refine ⟨[], hw', .emptied true hphase (congrArg Prod.fst hcontrol) ?_ hdrawing⟩
    rw [(htail.of_idle hphase).2.2.2]
    exact congrArg (fun control => control.2.2.2.2) hcontrol
  · rw [if_neg hphase] at hw' hdrawing
    exact ⟨_, hw', .cancelled hphase hcontrol hdrawing⟩

end Tool

/-! ## One act for every input -/

namespace Tool

variable {b : Bool} {t t' : Tool R} {calls : List (Exchange R)} {h : Host R σ}
  {w : σ × List (Exchange R)}

/-- Every event is one act. -/
theorem acts_event [Scalar R] (htail : t.Stands calls) (e : Event R) :
    Acts (Input.event (σ := σ) e).abandons t w (handle h.traced t w e).tool
      (handle h.traced t w e).world := by
  cases e with
  | press point time button =>
    rw [handle]
    split
    · exact acts_begin htail point time
    · exact .kept false rfl rfl
  | move point time buttons => exact acts_move point time buttons
  | release point time button => exact acts_release htail button
  | key key =>
    cases key with
    | up | down | left | right => exact .kept false rfl rfl
    | escape => exact acts_cancel htail
    | other code => exact .kept false rfl rfl

/-- A setting leaves the preview alone. -/
theorem acts_setSetting [DecimalScalar R] {key : String} {value : Option String}
    (hset : t.setSetting key value = .ok t') : Acts b t w t' w := by
  have hcontrol := control_setSetting hset
  rw [setSetting] at hset
  split at hset
  · cases hset
  next settings _ =>
    cases hset
    split
    next hidle =>
      rw [syncCapture]
      split
      · exact .kept b rfl rfl
      · exact ⟨[], (List.append_nil _).symm, .emptied b hidle hidle rfl rfl⟩
    · exact .kept b rfl rfl

/-- One input is one act. -/
theorem act_step [DecimalScalar R] (x : Tool R × σ × List (Exchange R)) (htail : x.1.Stands calls)
    (input : Input R σ) : Acts input.abandons x.1 x.2 (step h x input).1 (step h x input).2 := by
  cases input with
  | event e => exact acts_event htail e
  | tick => exact acts_tick
  | setSetting key value =>
    rw [step]
    split
    next t' hset => exact acts_setSetting hset
    · exact .kept false rfl rfl
  | cancel => exact acts_cancel htail
  | elapse f => exact ⟨[], (List.append_nil _).symm, .kept false rfl rfl⟩

/-- What holds of an unused tool and is kept by every act holds after any inputs. -/
theorem run_induct [DecimalScalar R] {motive : Tool R → List (Exchange R) → Prop}
    (settings : Settings R) (hstart : motive (ofSettings settings) [])
    (hact : ∀ {t t' b calls calls'}, motive t calls → Act t t' b calls' →
      motive t' (calls ++ calls')) (h : Host R σ) (inputs : List (Input R σ)) (w : σ) :
    motive (run h inputs (ofSettings settings, w, [])).1
      (run h inputs (ofSettings settings, w, [])).2.2 := by
  -- every tool of a run stands somewhere in a gesture, so its next step is an act
  have hunused : (ofSettings settings).Follows [] ∧ motive (ofSettings settings) [] :=
    ⟨follows_ofSettings settings, hstart⟩
  refine (List.foldlRecOn (b := (ofSettings settings, w, [])) inputs (step h)
    (motive := fun x => x.1.Follows x.2.2 ∧ motive x.1 x.2.2) hunused fun x hx input _ => ?_).2
  obtain ⟨⟨_, _, _, _, htail⟩, hmotive⟩ := id hx
  obtain ⟨calls, hcalls, hact'⟩ := act_step (h := h) x htail input
  refine ⟨hx.1.step input, ?_⟩
  rw [hcalls]
  exact hact hmotive hact'

end Tool

end Freehand
