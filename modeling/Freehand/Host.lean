import Freehand.Curve
import Freehand.Settings.Basic

/-!
# Hosts

The tool owns neither the document nor the canvas nor the view nor the timers.  It reaches them by
calls, and a host answers the calls from a state of its own.

* `Call` lists what the tool can ask for, and `Call.Answer` what each call is answered with.
* `Host` answers calls.  The view can be looked at without a call.
* `Host.traced` is a host that also keeps every call with its answer, oldest first.
-/

namespace Freehand

/-- The handle of a layer, a node that drawn paths can go into. -/
structure LayerHandle where
  /-- The handle as a word. -/
  bits : UInt64
  deriving DecidableEq, Repr, Inhabited

/-- The handle of a node of the document. -/
structure NodeHandle where
  /-- The handle as a word. -/
  bits : UInt64
  deriving DecidableEq, Repr, Inhabited

/-- The handle of a running timer. -/
structure TimerId where
  /-- The number of the timer. -/
  number : UInt32
  deriving DecidableEq, Repr, Inhabited

/-- Whether a layer accepts new drawing. -/
structure LayerState where
  /-- The layer is not shown. -/
  hidden : Bool
  /-- The layer may not be changed. -/
  locked : Bool
  deriving DecidableEq, Repr, Inhabited

/-- Why a document refused a change. -/
inductive DocumentError where
  /-- There is no such layer. -/
  | unknownLayer (layer : LayerHandle)
  /-- There is no such node. -/
  | unknownNode (node : NodeHandle)
  /-- The layer accepts no new nodes. -/
  | layerRejected (layer : LayerHandle)
  /-- Another reason, in words. -/
  | rejected (reason : String)
  deriving DecidableEq, Repr

/-- The text of a layer handle. -/
def LayerHandle.text (h : LayerHandle) : String :=
  s!"LayerHandle({h.bits.toNat})"

/-- The text of a node handle. -/
def NodeHandle.text (h : NodeHandle) : String :=
  s!"NodeHandle({h.bits.toNat})"

/-- What is wrong, in words. -/
def DocumentError.message : DocumentError → String
  | unknownLayer layer => "Unknown layer " ++ layer.text
  | unknownNode node => "Unknown node " ++ node.text
  | layerRejected layer => "Layer " ++ layer.text ++ " does not accept new nodes"
  | rejected reason => "Document rejected the change: " ++ reason

/-- The window the user draws in. -/
structure View (R : Type) where
  /-- The visible area in desktop coordinates. -/
  viewport : Rect R
  /-- The size of a pixel of the screen in desktop units. -/
  pixelSize : R
  /-- The map from desktop to document coordinates. -/
  toDocument : Affine R
  /-- Where the pointer is, in desktop coordinates. -/
  pointer : Option (Point R)

/-! ## Calls -/

/-- What a tool can ask of its host. -/
inductive Call (R : Type) where
  /-- Which layer does new drawing go into? -/
  | currentLayer
  /-- Does a layer accept new drawing? -/
  | layerState (layer : LayerHandle)
  /-- Create an empty path in a layer, painted as the mode asks. -/
  | createPathNode (layer : LayerHandle) (mode : StrokeMode)
  /-- Replace the geometry of a path, in document coordinates. -/
  | setPathData (node : NodeHandle) (elements : Path R)
  /-- Detach a node from the document. -/
  | removeNode (node : NodeHandle)
  /-- Close the transaction of one gesture. -/
  | commit (label : String)
  /-- Repaint a region in desktop coordinates, or everything. -/
  | requestRedraw (region : Option (Rect R))
  /-- Show the preview of the unsettled and of the settled parts of a stroke. -/
  | showPreview (current : Curve R) (settled : List (Curve R))
  /-- Show no preview. -/
  | clearPreview
  /-- Start a timer with a period in milliseconds. -/
  | startTimer (interval : UInt64)
  /-- Stop a timer. -/
  | cancelTimer (timer : TimerId)

/-- What a call is answered with. -/
def Call.Answer {R : Type} : Call R → Type
  | currentLayer => Option LayerHandle
  | layerState _ => Except DocumentError LayerState
  | createPathNode _ _ => Except DocumentError NodeHandle
  | setPathData _ _ | removeNode _ | commit _ => Except DocumentError Unit
  | requestRedraw _ | showPreview _ _ | clearPreview | cancelTimer _ => Unit
  | startTimer _ => TimerId

/-- A host with states of type `σ`. -/
structure Host (R σ : Type) where
  /-- What the window looks like. -/
  view : σ → View R
  /-- Answer a call. -/
  answer : (c : Call R) → σ → c.Answer × σ

/-- A call with its answer. -/
structure Exchange (R : Type) where
  /-- The call. -/
  call : Call R
  /-- What it was answered with. -/
  answer : call.Answer

namespace Host

variable {R σ : Type}

/-- The state after a call whose answer does not matter. -/
def tell (h : Host R σ) (c : Call R) (w : σ) : σ :=
  (h.answer c w).2

/-- The host that keeps every call with its answer. -/
def traced (h : Host R σ) : Host R (σ × List (Exchange R)) where
  view w := h.view w.1
  answer c w :=
    let (a, next) := h.answer c w.1
    (a, next, w.2 ++ [⟨c, a⟩])

end Host

end Freehand
