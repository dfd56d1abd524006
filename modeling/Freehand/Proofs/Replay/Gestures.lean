import Freehand.Proofs.Document.Strokes
import Freehand.Proofs.Tool.Isolation
import Freehand.Replay

/-!
# Gestures at a desk

What an event makes of a tool at a desk, and of the document on it (`Replay.turn_deliver`).

*Poise.*  Between events a tool is at rest, or in a gesture with a layer (`Tool.Poised`).  Its
capture is one of its own mode, in which every stroke has its shape, and it holds no node.

*Turns.*  An event either leaves the document alone, or it is the release of a gesture with at least
one sample.  Then at most one stroke is written into the layer of the gesture, and one change is
recorded.

Whether a gesture took a sample is told from the previews that its desk was asked to show
(`Replay.sampledAfter`), not from what the tool remembers.
-/

namespace Freehand

variable {R ω : Type}

/-! ## Samples and releases -/

/-- A button is released. -/
def Event.isRelease : Event R → Bool
  | .release _ _ _ => true
  | _ => false

/-- A sample was taken in the gesture that is open: one was already, or a preview was shown since
then. -/
def Replay.sampledAfter (sampled : Bool) (d : Desk R ω) (t' : Tool R) (d' : Desk R ω) : Bool :=
  t'.phase ≠ .idle && (sampled || d.canvas.previews < d'.canvas.previews)

open Replay

/-- The tool is at rest, or in a gesture in a layer, of which a sample was taken or not. -/
structure Tool.Poised (mode : StrokeMode) (layer : LayerHandle) (sampled : Bool) (t : Tool R) :
    Prop where
  settings : t.settings.mode = mode
  capture : t.capture.mode = mode
  shaped : t.capture.Shaped
  node : t.node = none
  dragging : t.dragging = sampled
  phase : t.phase = .idle ∧ sampled = false ∨ t.phase = .capturing ∧ t.layer = some layer

/-- The document stays, and the tool is poised. -/
structure Replay.Steady (mode : StrokeMode) (layer : LayerHandle) (sampled : Bool) (d : Desk R ω)
    (t' : Tool R) (d' : Desk R ω) : Prop where
  document : d'.document = d.document
  poised : t'.Poised mode layer (sampledAfter sampled d t' d')

/-- The document stays, or a stroke is written into a layer of it. -/
inductive Document.Inked [Scalar R] (mode : StrokeMode) (layer : LayerHandle) (d : Document R ω) :
    Document R ω → Prop where
  | blank : Inked mode layer d d
  | written {elements : Path R} (h : elements.IsStroke mode) :
      Inked mode layer d (d.write layer mode elements)

/-- What an event makes of a poised tool and of its desk. -/
inductive Replay.Turn [Scalar R] (mode : StrokeMode) (layer : LayerHandle) (sampled : Bool)
    (d : Desk R ω) (e : Event R) (t' : Tool R) (d' : Desk R ω) : Prop where
  | steady (h : Steady mode layer sampled d t' d')
      (hends : (e.isRelease && sampled && t'.phase = .idle) = false)
  | committed {document : Document R ω} (hinked : d.document.Inked mode layer document)
      (hdocument : d'.document = document.commit mode.label)
      (hpoised : t'.Poised mode layer false) (hends : e.isRelease = true)
      (hsampled : sampled = true) (hphase : t'.phase = .idle)

variable {mode : StrokeMode} {layer : LayerHandle} {sampled : Bool} {t t' : Tool R}
  {d d' : Desk R ω}

/-! ## Steady tools -/

namespace Tool.Poised

theorem of_idle (h : t.Poised mode layer sampled) (hphase : t.phase = .idle) : sampled = false := by
  rcases h.phase with ⟨-, hsampled⟩ | ⟨hcapturing, -⟩
  · exact hsampled
  · rw [hphase] at hcapturing
    cases hcapturing

theorem of_busy (h : t.Poised mode layer sampled) (hphase : t.phase ≠ .idle) :
    t.phase = .capturing ∧ t.layer = some layer := by
  rcases h.phase with ⟨hidle, -⟩ | hcapturing
  · exact absurd hidle hphase
  · exact hcapturing

/-- A tool in the same phase, whose desk showed no preview, took no sample. -/
theorem sampledAfter_eq (h : t.Poised mode layer sampled) (hphase : t'.phase = t.phase)
    (hcanvas : d'.canvas = d.canvas) : sampledAfter sampled d t' d' = sampled := by
  rw [sampledAfter, hcanvas, hphase, decide_eq_false (Nat.lt_irrefl _), Bool.or_false]
  by_cases hidle : t.phase = .idle
  · rw [h.of_idle hidle, Bool.and_false]
  · rw [decide_eq_true hidle, Bool.true_and]

/-- Where the pen is and when it was there does not matter. -/
theorem congr (h : t.Poised mode layer sampled) (hsettings : t'.settings.mode = t.settings.mode)
    (hcontrol : t'.control = t.control) (hcapture : t'.capture = t.capture) :
    t'.Poised mode layer sampled := by
  simp only [control, Prod.mk.injEq] at hcontrol
  obtain ⟨hphase, hlayer, hnode, -, hdragging⟩ := hcontrol
  refine ⟨hsettings.trans h.settings, ?_, ?_, hnode.trans h.node, hdragging.trans h.dragging, ?_⟩
  · rw [hcapture]
    exact h.capture
  · rw [hcapture]
    exact h.shaped
  · rw [hphase, hlayer]
    exact h.phase

/-- An event that does nothing to the gesture. -/
theorem kept (h : t.Poised mode layer sampled) (d : Desk R ω)
    (hsettings : t'.settings.mode = t.settings.mode) (hcontrol : t'.control = t.control)
    (hcapture : t'.capture = t.capture) : Steady mode layer sampled d t' d where
  document := rfl
  poised := by
    rw [h.sampledAfter_eq (congrArg Prod.fst hcontrol) rfl]
    exact h.congr hsettings hcontrol hcapture

/-- The gesture is over. -/
theorem rested (h : t.Poised mode layer sampled) (hsettings : t'.settings = t.settings)
    (hcapture : t'.capture = t.capture.reset) (hnode : t'.node = none)
    (hdragging : t'.dragging = false) (hphase : t'.phase = .idle) :
    t'.Poised mode layer false := by
  refine ⟨?_, ?_, ?_, hnode, hdragging, .inl ⟨hphase, rfl⟩⟩
  · rw [hsettings]
    exact h.settings
  · rw [hcapture, Capture.reset, Capture.mode_ofMode]
    exact h.capture
  · rw [hcapture]
    exact Capture.shaped_ofMode _

end Tool.Poised

theorem Replay.sampledAfter_of_idle (hphase : t'.phase = .idle) :
    sampledAfter sampled d t' d' = false := by
  rw [sampledAfter, hphase]
  rfl

theorem Canvas.previews_redraw [Scalar R] (c : Canvas R) (region : Option (Rect R)) :
    (c.redraw region).previews = c.previews := by
  cases region with
  | none => rfl
  | some r =>
    rw [redraw]
    dsimp only
    split <;> rfl

theorem Desk.changeOnly_snd (d : Desk R ω) (r : Except DocumentError (Document R ω)) :
    (d.changeOnly r).2 = { d with document := d.document.afterwards r } := by
  cases r <;> rfl

/-- A gesture took a sample whose preview is shown. -/
theorem Replay.sampledAfter_of_shown (hphase : t'.phase ≠ .idle)
    (hcanvas : d'.canvas.previews = d.canvas.previews + 1) :
    sampledAfter sampled d t' d' = true := by
  rw [sampledAfter, hcanvas, decide_eq_true (Nat.lt_succ_self _), decide_eq_true hphase,
    Bool.or_true, Bool.and_true]

namespace Tool

/-! ## Timers -/

variable [Scalar R]

theorem withoutTimer_desk (l : Listener R ω) (t : Tool R) (d : Desk R ω) :
    ∃ timers, withoutTimer (Desk.host l) t d = ({ t with timer := none }, { d with timers }) := by
  cases htimer : t.timer with
  | none =>
    refine ⟨d.timers, ?_⟩
    rw [withoutTimer, htimer]
    dsimp only
    rw [← htimer]
  | some timer =>
    rw [withoutTimer, htimer]
    exact ⟨_, rfl⟩

theorem withTimer_desk (l : Listener R ω) (t : Tool R) (d : Desk R ω) :
    ∃ timer timers, withTimer (Desk.host l) t d = ({ t with timer }, { d with timers }) := by
  rw [withTimer]
  split
  · exact ⟨_, _, rfl⟩
  · exact ⟨t.timer, d.timers, rfl⟩

/-! ## Steady events -/

namespace Poised

/-- A gesture begins with an empty capture of the same mode. -/
theorem started (h : t.Poised mode layer sampled) (hidle : t.phase = .idle) (d : Desk R ω)
    (view : View R) (point : Point R) (time : UInt64) (timer : Option TimerId) (timers : Timers) :
    Steady mode layer sampled d { t.started view layer point time with timer }
      { d with timers } where
  document := rfl
  poised := by
    have hsampled : sampledAfter sampled d { t.started view layer point time with timer }
        { d with timers } = false := by
      rw [sampledAfter, h.of_idle hidle, Bool.false_or, decide_eq_false (Nat.lt_irrefl _),
        Bool.and_false]
    have hcontrol := control_started t view layer point time
    have hdrawing := drawing_started t view layer point time
    simp only [control, drawing, Prod.mk.injEq] at hcontrol hdrawing
    obtain ⟨hphase, hlayer, hnode, -, hdragging⟩ := hcontrol
    obtain ⟨hcapture, -⟩ := hdrawing
    rw [hsampled]
    refine ⟨?_, ?_, ?_, hnode, hdragging, .inr ⟨hphase, hlayer⟩⟩
    · show t.syncCapture.settings.mode = mode
      rw [syncCapture_settings]
      exact h.settings
    · show (t.started view layer point time).capture.mode = mode
      rw [hcapture, Capture.mode_ofMode]
      exact h.settings
    · show (t.started view layer point time).capture.Shaped
      rw [hcapture]
      exact Capture.shaped_ofMode _

/-- A gesture begins in the current layer. -/
theorem begin (h : t.Poised mode layer sampled) (l : Listener R ω)
    (hlayer : ∀ layer', d.document.currentLayer? = some layer' → layer' = layer)
    (point : Point R) (time : UInt64) :
    Steady mode layer sampled d (Tool.begin (Desk.host l) t d point time).tool
      (Tool.begin (Desk.host l) t d point time).world := by
  have hkept : Steady mode layer sampled d t d := h.kept d rfl rfl rfl
  have hcurrent : (Desk.host l).answer .currentLayer d = (d.document.currentLayer?, d) := rfl
  have hstate : ∀ layer', (Desk.host l).answer (.layerState layer') d =
      (d.document.layerState layer', d) := fun _ => rfl
  rw [Tool.begin, hcurrent]
  split
  · exact hkept
  next hbusy =>
    have hidle : t.phase = .idle := Decidable.of_not_not hbusy
    cases hfound : d.document.currentLayer? with
    | none => exact hkept
    | some layer' =>
      obtain rfl := hlayer layer' hfound
      dsimp only
      rw [hstate]
      cases d.document.layerState layer' with
      | error e => exact hkept
      | ok state =>
        dsimp only
        split
        · exact hkept
        · obtain ⟨timer, timers, heq⟩ :=
            withTimer_desk l (t.started ((Desk.host l).view d) layer' point time) d
          rw [heq]
          exact h.started hidle d _ point time timer timers

/-- A sample is taken, and its preview is shown. -/
theorem sample (h : t.Poised mode layer sampled) (hphase : t.phase = .capturing)
    (l : Listener R ω) (d : Desk R ω) (point : Point R) :
    Steady mode layer sampled d (Tool.sample (Desk.host l) t d point).tool
      (Tool.sample (Desk.host l) t d point).world := by
  rw [Tool.sample]
  dsimp only
  split
  · exact h.kept d rfl rfl rfl
  · refine ⟨rfl, ?_⟩
    have hshown : ∀ region, (d.canvas.present.redraw region).previews = d.canvas.previews + 1 :=
      fun region => Canvas.previews_redraw d.canvas.present region
    rw [sampledAfter_of_shown Phase.noConfusion (hshown _)]
    refine ⟨h.settings, ?_, h.shaped.sample _ _ _, h.node, rfl, .inr ⟨rfl, ?_⟩⟩
    · exact (Capture.mode_sample t.capture _ _ _).trans h.capture
    · exact (h.of_busy (by rw [hphase]; decide)).2

/-- The pointer moves. -/
theorem move (h : t.Poised mode layer sampled) (l : Listener R ω) (d : Desk R ω) (point : Point R)
    (time : UInt64) (buttons : Buttons) :
    Steady mode layer sampled d (Tool.move (Desk.host l) t d point time buttons).tool
      (Tool.move (Desk.host l) t d point time buttons).world := by
  rw [Tool.move]
  split
  · exact h.kept d rfl rfl rfl
  next hphase =>
    split
    · exact h.kept d rfl rfl rfl
    · have hcapturing : t.phase = .capturing :=
        Decidable.of_not_not fun hne => hphase (.inl hne)
      have hsample := h.sample hcapturing l d point
      dsimp only
      split
      · exact ⟨hsample.document, hsample.poised.congr rfl rfl rfl⟩
      · exact hsample

/-- The timer ticks. -/
theorem tick (h : t.Poised mode layer sampled) (l : Listener R ω) (d : Desk R ω) :
    Steady mode layer sampled d (Tool.tick (Desk.host l) t d).tool
      (Tool.tick (Desk.host l) t d).world := by
  rw [Tool.tick]
  split
  · exact h.kept d rfl rfl rfl
  next hphase =>
    have hcapturing : t.phase = .capturing :=
      Decidable.of_not_not fun hne => hphase (.inl hne)
    split
    next point _ => exact h.sample hcapturing l d point
    next => exact h.kept d rfl rfl rfl

/-- A gesture is abandoned.  There is no node to remove. -/
theorem cancel (h : t.Poised mode layer sampled) (l : Listener R ω) (d : Desk R ω) :
    Steady mode layer sampled d (Tool.cancel (Desk.host l) t d).1
      (Tool.cancel (Desk.host l) t d).2 := by
  obtain ⟨timers, htimer⟩ := withoutTimer_desk l t d
  have hnode : withoutNode (Desk.host l) { t with timer := none } { d with timers } =
      ({ t with timer := none }, { d with timers }) := by
    rw [withoutNode, h.node]
  rw [Tool.cancel, htimer]
  dsimp only
  rw [hnode]
  dsimp only
  rw [withoutPreview]
  split
  · refine ⟨rfl, ?_⟩
    rw [sampledAfter_of_idle rfl]
    exact h.rested rfl rfl h.node rfl rfl
  · refine ⟨rfl, ?_⟩
    rw [sampledAfter_of_idle rfl]
    exact h.rested rfl rfl h.node rfl rfl

/-- A key is pressed. -/
theorem press (h : t.Poised mode layer sampled) (l : Listener R ω) (d : Desk R ω) (key : Key) :
    Steady mode layer sampled d (Tool.press (Desk.host l) t d key).tool
      (Tool.press (Desk.host l) t d key).world := by
  cases key with
  | up | down | left | right => exact h.kept d rfl rfl rfl
  | escape => exact h.cancel l d
  | other code => exact h.kept d rfl rfl rfl

end Poised

/-! ## Releases -/

/-- A tool without a node asks the document for one, in the layer of its gesture. -/
theorem withNode_desk (l : Listener R ω) (d : Desk R ω) (hnode : t.node = none)
    (hlayer : t.layer = some layer) :
    withNode (Desk.host l) t d =
      match d.document.createPathNode layer t.capture.mode with
      | .ok (node, document) => ({ t with node := some node }, { d with document })
      | .error _ => (t, d) := by
  have hanswer : (Desk.host l).answer (.createPathNode layer t.capture.mode) d =
      d.change (d.document.createPathNode layer t.capture.mode) := rfl
  have hfree : ¬ t.node.isSome = true := by
    rw [hnode]
    exact Bool.false_ne_true
  rw [withNode, if_neg hfree, targetLayer, hlayer]
  dsimp only
  rw [hanswer]
  cases d.document.createPathNode layer t.capture.mode <;> rfl

/-- A stroke is written into its layer, unless it is empty. -/
theorem writeOutline_desk (l : Listener R ω) (d : Desk R ω) {outline : Curve R}
    (hnode : t.node = none) (hlayer : t.layer = some layer) (hcapture : t.capture.mode = mode)
    (houtline : outline = .empty ∨ outline.elements.IsStroke mode) :
    ∃ node document, writeOutline (Desk.host l) t d outline =
      ({ t with node }, { d with document }) ∧ d.document.Inked mode layer document := by
  rw [writeOutline]
  rcases houtline with rfl | houtline
  · refine ⟨t.node, d.document, ?_, .blank⟩
    have hempty : (Curve.empty : Curve R).isEmpty = true := rfl
    rw [if_pos hempty, withoutNode, hnode]
    dsimp only
    rw [← hnode]
  · have hne : ¬ outline.isEmpty = true := by
      rw [Curve.isEmpty, List.isEmpty_iff]
      exact houtline.ne_nil
    rw [if_neg hne, withNode_desk l d hnode hlayer, hcapture]
    have hwritten := houtline.transformed ((Desk.host l).view d).toDocument
    cases hcreate : d.document.createPathNode layer mode with
    | error e =>
      refine ⟨t.node, d.document, ?_, .blank⟩
      dsimp only
      rw [hnode]
      dsimp only
      rw [← hnode]
    | ok created =>
      obtain ⟨node, document⟩ := created
      refine ⟨some node, _, ?_, .written hwritten⟩
      rw [Document.write, hcreate]
      exact congrArg (Prod.mk _) (Desk.changeOnly_snd { d with document } _)

/-- A gesture with a sample is committed. -/
theorem Poised.commit (h : t.Poised mode layer sampled) (hphase : t.phase ≠ .idle)
    (l : Listener R ω) (d : Desk R ω) :
    ∃ document, d.document.Inked mode layer document ∧
      (Tool.commit (Desk.host l) t d).2.document = document.commit mode.label ∧
      (Tool.commit (Desk.host l) t d).1.Poised mode layer false ∧
      (Tool.commit (Desk.host l) t d).1.phase = .idle := by
  have hfinish := h.shaped.finish (t.tolerance ((Desk.host l).view d))
  rw [h.capture] at hfinish
  have hcapture : t.finishing.capture.mode = mode :=
    (Capture.mode_ofMode _).trans h.capture
  obtain ⟨node, document, heq, hinked⟩ :=
    writeOutline_desk (t := t.finishing) l d h.node (h.of_busy hphase).2 hcapture hfinish
  refine ⟨document, hinked, ?_, ?_, rfl⟩
  · simp only [commit_eq, heq]
    rw [← h.settings]
    rfl
  · simp only [commit_eq, heq]
    exact h.rested rfl rfl rfl rfl rfl

/-- A button is released. -/
theorem Poised.release (h : t.Poised mode layer sampled) (l : Listener R ω) (d : Desk R ω)
    (point : Point R) (time : UInt64) (button : UInt8) :
    Turn mode layer sampled d (.release point time button)
      (Tool.release (Desk.host l) t d button).tool
      (Tool.release (Desk.host l) t d button).world := by
  rw [Tool.release]
  split
  next hneither =>
    refine .steady (h.kept d rfl rfl rfl) ?_
    by_cases hidle : t.phase = .idle
    · rw [h.of_idle hidle, Bool.and_false, Bool.false_and]
    · rw [decide_eq_false hidle, Bool.and_false]
  next hends =>
    have hbusy : t.phase ≠ .idle := fun hidle => hends (.inr hidle)
    obtain ⟨timers, htimer⟩ := withoutTimer_desk l t d
    rw [htimer]
    dsimp only
    have hstopped : ({ t with timer := none } : Tool R).Poised mode layer sampled :=
      ⟨h.settings, h.capture, h.shaped, h.node, h.dragging, h.phase⟩
    cases hdragging : t.dragging with
    | false =>
      rw [if_neg Bool.false_ne_true]
      refine .steady ⟨rfl, ?_⟩ ?_
      · rw [sampledAfter_of_idle rfl]
        exact h.rested rfl rfl h.node rfl rfl
      · rw [← h.dragging, hdragging, Bool.and_false, Bool.false_and]
    | true =>
      rw [if_pos rfl]
      obtain ⟨document, hinked, hdocument, hpoised, hphase⟩ := hstopped.commit hbusy l
        ((Desk.host l).tell .clearPreview { d with timers })
      exact .committed hinked hdocument hpoised rfl (h.dragging.symm.trans hdragging) hphase

/-! ## Events -/

/-- An event at a desk whose current layer is that of the gesture, if there is one. -/
theorem Poised.handle (h : t.Poised mode layer sampled) (l : Listener R ω)
    (hlayer : ∀ layer', d.document.currentLayer? = some layer' → layer' = layer) (e : Event R) :
    Turn mode layer sampled d e (Tool.handle (Desk.host l) t d e).tool
      (Tool.handle (Desk.host l) t d e).world := by
  cases e with
  | press point time button =>
    rw [Tool.handle]
    split
    · exact .steady (h.begin l hlayer point time) rfl
    · exact .steady (h.kept d rfl rfl rfl) rfl
  | move point time buttons => exact .steady (h.move l d point time buttons) rfl
  | release point time button => exact h.release l d point time button
  | key key => exact .steady (h.press l d key) rfl

end Tool

variable [Scalar R]

/-- An event of a replay. -/
theorem Replay.turn_deliver {r : Run R ω} (h : r.tool.Poised mode layer sampled)
    (l : Listener R ω)
    (hlayer : ∀ layer', r.desk.document.currentLayer? = some layer' → layer' = layer)
    (e : Event R) :
    Turn mode layer sampled r.desk e (deliver l r e).tool (deliver l r e).desk := by
  cases e with
  | move point time buttons =>
    rw [deliver]
    dsimp only
    split
    · have htick := h.tick l { r.desk with view.pointer := some point }
      exact .steady ⟨htick.document, htick.poised⟩ rfl
    · exact h.handle l hlayer (.move point time buttons)
  | press point time button => exact h.handle l hlayer (.press point time button)
  | release point time button => exact h.handle l hlayer (.release point time button)
  | key key => exact h.handle l hlayer (.key key)

end Freehand
