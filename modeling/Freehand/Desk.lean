import Freehand.Document

/-!
# Desks

A desk is a host without a window: a document, a canvas that records what it is asked to show, a
view, and timers that tick only when they are told to.
-/

namespace Freehand

/-- A canvas that records what it is asked to show. -/
structure Canvas (R : Type) where
  /-- The number of repaints asked for. -/
  redraws : Nat
  /-- The number of previews shown. -/
  previews : Nat
  /-- The number of times the preview was cleared. -/
  clears : Nat
  /-- The area asked to be repainted; none once everything was. -/
  damage : Option (Rect R)
  /-- A repaint of everything was asked for. -/
  full : Bool

namespace Canvas

variable {R : Type}

/-- A canvas that was asked for nothing. -/
def blank : Canvas R :=
  ⟨0, 0, 0, none, false⟩

/-- Ask for a repaint of a region, or of everything. -/
def redraw [Scalar R] (c : Canvas R) (region : Option (Rect R)) : Canvas R :=
  let c := { c with redraws := c.redraws + 1 }
  match region with
  | none => { c with full := true, damage := none }
  | some r => if c.full then c else { c with damage := Rect.join c.damage (some r) }

/-- Show a preview. -/
def present (c : Canvas R) : Canvas R :=
  { c with previews := c.previews + 1 }

/-- Show no preview. -/
def clear (c : Canvas R) : Canvas R :=
  { c with clears := c.clears + 1 }

end Canvas

/-- Running timers. -/
structure Timers where
  /-- The number of timers started so far. -/
  started : UInt32
  /-- The running timers with their periods in milliseconds, oldest first. -/
  running : List (TimerId × UInt64)

namespace Timers

/-- No timer was started. -/
def none : Timers :=
  ⟨0, []⟩

/-- Some timer is running. -/
def isRunning (t : Timers) : Bool :=
  !t.running.isEmpty

/-- Start a timer. -/
def start (t : Timers) (interval : UInt64) : TimerId × Timers :=
  let id : TimerId := ⟨t.started + 1⟩
  (id, ⟨id.number, t.running ++ [(id, interval)]⟩)

/-- Stop a timer. -/
def cancel (t : Timers) (id : TimerId) : Timers :=
  { t with running := t.running.filter fun r => r.1 ≠ id }

end Timers

/-- A host without a window. -/
structure Desk (R ω : Type) where
  /-- The document. -/
  document : Document R ω
  /-- The canvas. -/
  canvas : Canvas R
  /-- The view. -/
  view : View R
  /-- The timers. -/
  timers : Timers

namespace Desk

variable {R ω : Type}

/-- A change of the document, if it succeeds. -/
def change {α : Type} (d : Desk R ω) (r : Except DocumentError (α × Document R ω)) :
    Except DocumentError α × Desk R ω :=
  match r with
  | .ok (a, document) => (.ok a, { d with document })
  | .error e => (.error e, d)

/-- A change of the document without an answer, if it succeeds. -/
def changeOnly (d : Desk R ω) (r : Except DocumentError (Document R ω)) :
    Except DocumentError Unit × Desk R ω :=
  d.change (r.map fun document => ((), document))

variable [Scalar R]

/-- A desk with a document, seen through a viewport at its natural size. -/
def withViewport (document : Document R ω) (viewport : Rect R) : Desk R ω :=
  ⟨document, .blank, ⟨viewport, 1, .identity, none⟩, .none⟩

/-- The host that a desk is, with what the observers of its document do. -/
def host (l : Listener R ω) : Host R (Desk R ω) where
  view d := d.view
  answer c d :=
    match c with
    | .currentLayer => (d.document.currentLayer?, d)
    | .layerState layer => (d.document.layerState layer, d)
    | .createPathNode layer mode => d.change (d.document.createPathNode layer mode)
    | .setPathData node elements => d.changeOnly (d.document.setPathData node elements)
    | .removeNode node => d.changeOnly (d.document.removeNode l node)
    | .commit label => (.ok (), { d with document := d.document.commit label })
    | .requestRedraw region => ((), { d with canvas := d.canvas.redraw region })
    | .showPreview _ _ => ((), { d with canvas := d.canvas.present })
    | .clearPreview => ((), { d with canvas := d.canvas.clear })
    | .startTimer interval =>
      let (id, timers) := d.timers.start interval
      (id, { d with timers })
    | .cancelTimer id => ((), { d with timers := d.timers.cancel id })

end Desk

end Freehand
