import Freehand.Capture
import Freehand.Host
import Freehand.Settings.Preference

/-!
# The drawing tool

The tool turns pointer and key events into strokes.

* A gesture begins when button 1 is pressed over a layer that accepts drawing, and ends when it is
  released or when the gesture is cancelled.
* During a gesture each sample of the pointer pulls the pen.  If the pen moved, its new position is
  captured and fitted, and the preview is shown and repainted.
* Samples come from pointer moves, or from a timer where the settings ask for one.  Moves that come
  too early after the last sample are dropped where the settings ask for that.
* A release after at least one sample writes the finished stroke into a new path of the layer and
  commits it, whether or not the document accepts the path.
* A change of the stroke mode takes effect with the next gesture.
-/

namespace Freehand

/-! ## Events -/

/-- The buttons held during a pointer move. -/
structure Buttons where
  /-- Button 1 is held. -/
  first : Bool
  /-- Button 2 is held. -/
  second : Bool
  /-- Button 3 is held. -/
  third : Bool
  deriving DecidableEq, Repr, Inhabited

/-- The buttons of a mask with one bit for each; other bits mean nothing. -/
def Buttons.ofBits (bits : UInt8) : Buttons :=
  let n := bits.toNat
  ⟨n.testBit 0, n.testBit 1, n.testBit 2⟩

/-- The mask of the buttons. -/
def Buttons.toNat (b : Buttons) : Nat :=
  b.first.toNat + 2 * b.second.toNat + 4 * b.third.toNat

/-- The keys that the tool knows, and all others by a number. -/
inductive Key where
  /-- The arrow that turns the tip forward. -/
  | up
  /-- The arrow that turns the tip back. -/
  | down
  /-- The arrow that makes the tip narrower. -/
  | left
  /-- The arrow that makes the tip wider. -/
  | right
  /-- The key that cancels a gesture. -/
  | escape
  /-- Any other key. -/
  | other (code : UInt32)
  deriving DecidableEq, Repr

/-- An input event.  Points are in desktop coordinates, times in milliseconds. -/
inductive Event (R : Type) where
  /-- A button was pressed. -/
  | press (point : Point R) (time : UInt64) (button : UInt8)
  /-- The pointer moved. -/
  | move (point : Point R) (time : UInt64) (buttons : Buttons)
  /-- A button was released. -/
  | release (point : Point R) (time : UInt64) (button : UInt8)
  /-- A key was pressed. -/
  | key (key : Key)
  deriving Repr

/-! ## State -/

/-- Where a tool is in a gesture. -/
inductive Phase where
  /-- There is no gesture. -/
  | idle
  /-- Samples are being collected. -/
  | capturing
  /-- The samples are being fitted. -/
  | fitting
  /-- The finished stroke is being written. -/
  | committing
  deriving DecidableEq, Repr, Inhabited

/-- The state of the tool. -/
structure Tool (R : Type) where
  /-- The settings. -/
  settings : Settings R
  /-- The pen. -/
  pen : Pen R
  /-- The capture in use, which may lag behind the mode of the settings. -/
  capture : Capture R
  /-- Where the tool is in a gesture. -/
  phase : Phase
  /-- The layer that the gesture draws into. -/
  layer : Option LayerHandle
  /-- The path that holds the stroke, once it was created. -/
  node : Option NodeHandle
  /-- The timer that drives the sampling. -/
  timer : Option TimerId
  /-- A sample has moved the pen during the gesture. -/
  dragging : Bool
  /-- The time of the last sample that was taken. -/
  lastSample : Option UInt64
  /-- The area that the preview covered at the last repaint. -/
  previewRegion : Option (Rect R)

/-- What an event did: whether the tool consumed it, and the tool and its host afterwards. -/
structure Reaction (R σ : Type) where
  /-- The tool consumed the event. -/
  consumed : Bool
  /-- The tool afterwards. -/
  tool : Tool R
  /-- The state of the host afterwards. -/
  world : σ

namespace Tool

variable {R σ : Type}

/-! ## Settings -/

/-- The steps of the arrow keys for the angle, in degrees. -/
def angleStep [Scalar R] : R :=
  5.0

/-- The steps of the arrow keys for the width. -/
def widthStep [Scalar R] : R :=
  0.01

/-- The capture of the mode in the settings, where another one is in use. -/
def syncCapture (t : Tool R) : Tool R :=
  if t.capture.mode = t.settings.mode then t else { t with capture := .ofMode t.settings.mode }

/-- The name of a committed stroke. -/
def label (t : Tool R) : String :=
  match t.settings.mode with
  | .line => "Draw freehand line"
  | .calligraphic => "Draw calligraphic stroke"

/-- A tool that has not been used. -/
def ofSettings [Scalar R] (settings : Settings R) : Tool R where
  settings
  pen := .unused
  capture := .ofMode settings.mode
  phase := .idle
  layer := none
  node := none
  timer := none
  dragging := false
  lastSample := none
  previewRegion := none

/-- Set the preference with a given key. -/
def setSetting [DecimalScalar R] (t : Tool R) (key : String) (value : Option String) :
    Except SettingsError (Tool R) :=
  match t.settings.set key value with
  | .error e => .error e
  | .ok settings =>
    let t := { t with settings }
    .ok (if t.phase = .idle then t.syncCapture else t)

variable [Scalar R]

/-- The squared distance that a fit may stray from the samples. -/
def tolerance (t : Tool R) (view : View R) : R :=
  let distance := view.pixelSize * t.settings.mode.tolerance
  distance * distance

/-! ## Gestures -/

/-- The tool at the start of a gesture in a layer. -/
def started (t : Tool R) (view : View R) (layer : LayerHandle) (point : Point R) (time : UInt64) :
    Tool R :=
  let t := t.syncCapture
  { t with
    capture := t.capture.reset
    pen := ((Pen.atRest point view.viewport).pull point view.viewport t.settings).2
    layer := some layer
    node := none
    dragging := false
    lastSample := some time
    previewRegion := none
    phase := .capturing }

/-- The tool with a timer, if the settings ask for one. -/
def withTimer (h : Host R σ) (t : Tool R) (w : σ) : Tool R × σ :=
  if t.settings.useTimer && t.timer.isNone then
    let (timer, w) := h.answer (.startTimer t.settings.sampleInterval) w
    ({ t with timer := some timer }, w)
  else
    (t, w)

/-- Begin a gesture, if there is none and the current layer accepts drawing. -/
def begin (h : Host R σ) (t : Tool R) (w : σ) (point : Point R) (time : UInt64) : Reaction R σ :=
  if t.phase ≠ .idle then
    ⟨false, t, w⟩
  else
    match h.answer .currentLayer w with
    | (none, w) => ⟨true, t, w⟩
    | (some layer, w) =>
      match h.answer (.layerState layer) w with
      | (.error _, w) => ⟨true, t, w⟩
      | (.ok state, w) =>
        if state.hidden || state.locked then
          ⟨true, t, w⟩
        else
          let (t, w) := withTimer h (t.started (h.view w) layer point time) w
          ⟨true, t, w⟩

/-- Take one sample of the pointer.  Says whether the pen moved. -/
def sample (h : Host R σ) (t : Tool R) (w : σ) (point : Point R) : Reaction R σ :=
  let view := h.view w
  let (pulled, pen) := t.pen.pull point view.viewport t.settings
  let t := { t with pen }
  if !pulled || pen.position == pen.previous then
    ⟨false, t, w⟩
  else
    let t := { t with
      dragging := true
      capture := t.capture.addSample pen t.settings
      phase := .fitting }
    let t := { t with
      capture := t.capture.fit (t.tolerance view)
      phase := .capturing }
    let covered := t.capture.preview.bounds
    let w := h.tell (.showPreview t.capture.preview t.capture.settled) w
    let w := h.tell (.requestRedraw (Rect.join t.previewRegion covered)) w
    ⟨true, { t with previewRegion := covered }, w⟩

omit [Scalar R] in
/-- A move at a time comes too early after the last sample. -/
def isEarly (t : Tool R) (time : UInt64) : Bool :=
  t.settings.decimateMoves &&
    t.lastSample.any fun last => time.toNat - last.toNat < t.settings.sampleInterval.toNat

/-- The pointer moved. -/
def move (h : Host R σ) (t : Tool R) (w : σ) (point : Point R) (time : UInt64)
    (buttons : Buttons) : Reaction R σ :=
  if t.phase ≠ .capturing ∨ t.timer.isSome ∨ !buttons.first then
    ⟨false, t, w⟩
  else if t.isEarly time then
    ⟨true, t, w⟩
  else
    let r := sample h t w point
    ⟨true, if r.consumed then { r.tool with lastSample := some time } else r.tool, r.world⟩

omit [Scalar R] in
/-- The tool without its timer, which is stopped. -/
def withoutTimer (h : Host R σ) (t : Tool R) (w : σ) : Tool R × σ :=
  match t.timer with
  | some timer => ({ t with timer := none }, h.tell (.cancelTimer timer) w)
  | none => (t, w)

omit [Scalar R] in
/-- The tool without its path, which is removed from the document. -/
def withoutNode (h : Host R σ) (t : Tool R) (w : σ) : Tool R × σ :=
  match t.node with
  | some node => ({ t with node := none }, h.tell (.removeNode node) w)
  | none => (t, w)

omit [Scalar R] in
/-- The layer that a stroke goes into. -/
def targetLayer (h : Host R σ) (t : Tool R) (w : σ) : Option LayerHandle × σ :=
  match t.layer with
  | some layer => (some layer, w)
  | none => h.answer .currentLayer w

omit [Scalar R] in
/-- The tool with a path for a stroke, if the document provides one. -/
def withNode (h : Host R σ) (t : Tool R) (w : σ) : Tool R × σ :=
  if t.node.isSome then
    (t, w)
  else
    match targetLayer h t w with
    | (none, w) => (t, w)
    | (some layer, w) =>
      match h.answer (.createPathNode layer t.capture.mode) w with
      | (.error _, w) => (t, w)
      | (.ok node, w) => ({ t with node := some node }, w)

/-- Write a finished stroke into its path; an empty one leaves no path. -/
def writeOutline (h : Host R σ) (t : Tool R) (w : σ) (outline : Curve R) : Tool R × σ :=
  if outline.isEmpty then
    withoutNode h t w
  else
    let (t, w) := withNode h t w
    match t.node with
    | none => (t, w)
    | some node =>
      (t, h.tell (.setPathData node (outline.transformed (h.view w).toDocument).elements) w)

/-- Commit the stroke captured so far. -/
def commit (h : Host R σ) (t : Tool R) (w : σ) : Tool R × σ :=
  let t := { t with dragging := false, phase := .committing }
  let outline := t.capture.finish (t.tolerance (h.view w))
  let region := Rect.join t.previewRegion outline.bounds
  let t := { t with capture := t.capture.reset, previewRegion := none }
  let (t, w) := writeOutline h t w outline
  let w := h.tell (.commit t.label) w
  let t := { t with node := none, layer := none, phase := .idle }
  (t, h.tell (.requestRedraw region) w)

/-- A button was released. -/
def release (h : Host R σ) (t : Tool R) (w : σ) (button : UInt8) : Reaction R σ :=
  if button ≠ 1 ∨ t.phase = .idle then
    ⟨false, t, w⟩
  else
    let (t, w) := withoutTimer h t w
    let w := h.tell .clearPreview w
    if t.dragging then
      let (t, w) := commit h t w
      ⟨true, t, w⟩
    else
      ⟨true, { t with capture := t.capture.reset, phase := .idle }, w⟩

omit [Scalar R] in
/-- Show nothing of the gesture any more. -/
def withoutPreview (h : Host R σ) (t : Tool R) (w : σ) : Tool R × σ :=
  if t.phase = .idle then
    (t, w)
  else
    let w := h.tell .clearPreview w
    ({ t with previewRegion := none }, h.tell (.requestRedraw t.previewRegion) w)

omit [Scalar R] in
/-- Abandon the gesture, if there is one. -/
def cancel (h : Host R σ) (t : Tool R) (w : σ) : Tool R × σ :=
  let (t, w) := withoutTimer h t w
  let (t, w) := withoutNode h t w
  let (t, w) := withoutPreview h t w
  ({ t with
      capture := t.capture.reset
      dragging := false
      layer := none
      lastSample := none
      phase := .idle }, w)

/-! ## Events -/

/-- The tool with a quantity moved by an arrow key. -/
def nudged (t : Tool R) (q : Quantity) (delta : R) : Tool R :=
  { t with settings := t.settings.nudge q delta }

/-- A key was pressed. -/
def press (h : Host R σ) (t : Tool R) (w : σ) : Key → Reaction R σ
  | .up => ⟨true, t.nudged .angle angleStep, w⟩
  | .down => ⟨true, t.nudged .angle (-angleStep), w⟩
  | .right => ⟨true, t.nudged .width widthStep, w⟩
  | .left => ⟨true, t.nudged .width (-widthStep), w⟩
  | .escape =>
    let (t', w) := cancel h t w
    ⟨t.phase ≠ .idle, t', w⟩
  | .other _ => ⟨false, t, w⟩

/-- Handle one input event. -/
def handle (h : Host R σ) (t : Tool R) (w : σ) : Event R → Reaction R σ
  | .press point time button => if button = 1 then begin h t w point time else ⟨false, t, w⟩
  | .move point time buttons => move h t w point time buttons
  | .release _ _ button => release h t w button
  | .key key => press h t w key

/-- The timer ticked: sample the pointer, if a gesture is driven by a timer. -/
def tick (h : Host R σ) (t : Tool R) (w : σ) : Reaction R σ :=
  if t.phase ≠ .capturing ∨ t.timer.isNone then
    ⟨false, t, w⟩
  else
    match (h.view w).pointer with
    | some point => sample h t w point
    | none => ⟨false, t, w⟩

end Tool

end Freehand
