import Freehand.Desk
import Freehand.Tool

/-!
# Replays

A replay feeds a list of events to a new tool on a desk and reports what the gesture left in the
document.

* The update that is outstanding runs after every event, and the damage it leaves is collected.
* While a timer runs, a move only places the pointer, and the timer ticks once.
-/

namespace Freehand

/-- Why a replay was refused. -/
inductive ReplayError where
  /-- No layer of the document is the current one. -/
  | noLayer
  deriving DecidableEq, Repr

/-- What is wrong, in words. -/
def ReplayError.message : ReplayError → String
  | noLayer => "Document has no current layer"

/-- What a replay left in the document. -/
structure Report (R : Type) where
  /-- The stroke mode of the settings. -/
  mode : StrokeMode
  /-- The number of events. -/
  events : Nat
  /-- The path that the replay added. -/
  node : Option NodeId
  /-- The elements of that path. -/
  elements : Path R
  /-- The passes over the scene. -/
  passes : Nat
  /-- The updates given up. -/
  aborted : Nat
  /-- The area that changed. -/
  damage : Option (Rect R)

namespace Replay

variable {R ω : Type} [Scalar R]

/-! ## A gesture to replay -/

/-- A point of one wave, 300 wide and 80 high, that starts at `origin`. -/
def wavePoint (origin : Point R) (samples i : Nat) : Point R :=
  let t : R := Scalar.ofNat i / Scalar.ofNat samples
  origin + ⟨300.0 * t, 80.0 * Scalar.sin (t * (2.0 * Scalar.pi))⟩

/-- A gesture along one wave with a number of moves, at least one. -/
def wave (origin : Point R) (samples : Nat) : List (Event R) :=
  let n := max samples 1
  let time (i : Nat) : UInt64 := UInt64.ofNat (12 * i)
  let at' := wavePoint origin n
  .press (at' 0) 0 1 ::
    ((List.range n).map (fun i => .move (at' (i + 1)) (time (i + 1)) ⟨true, false, false⟩) ++
      [.release (at' n) (time (n + 1)) 1])

/-! ## The replay -/

/-- A tool at its desk, and the damage collected so far. -/
structure Run (R ω : Type) where
  /-- The tool. -/
  tool : Tool R
  /-- The desk. -/
  desk : Desk R ω
  /-- The damage collected so far. -/
  damage : Option (Rect R)

/-- Let the tool handle one event, or let the timer tick for a move while it runs. -/
def deliver (l : Listener R ω) (r : Run R ω) (e : Event R) : Run R ω :=
  let reaction :=
    match e with
    | .move point _ _ =>
      if r.desk.timers.isRunning then
        r.tool.tick (Desk.host l) { r.desk with view.pointer := some point }
      else
        r.tool.handle (Desk.host l) r.desk e
    | _ => r.tool.handle (Desk.host l) r.desk e
  { r with tool := reaction.tool, desk := reaction.world }

/-- Run the update that is outstanding and collect its damage, unless it is given up. -/
def refresh (l : Listener R ω) (r : Run R ω) : Run R ω :=
  let document := r.desk.document
  match document.stage.runPending l with
  | (.ok _, stage) =>
    let (damage, scene) := stage.scene.takeDamage
    { r with
      desk := { r.desk with document := { document with stage := { stage with scene } } }
      damage := Rect.join r.damage damage }
  | (.error _, stage) => { r with desk := { r.desk with document := { document with stage } } }

/-- Deliver one event and run the update after it. -/
def step (l : Listener R ω) (r : Run R ω) (e : Event R) : Run R ω :=
  refresh l (deliver l r e)

/-- The viewport of a replay. -/
def viewport : Rect R :=
  ⟨0, 0, 1024.0, 768.0⟩

/-- The report on a run that started from the document `before`. -/
def report (before after : Document R ω) (layer : NodeId) (mode : StrokeMode) (events : Nat)
    (damage : Option (Rect R)) : Report R :=
  let known := before.pathsIn layer
  let node := (after.pathsIn layer).find? fun id => !known.contains id
  { mode
    events
    node
    elements := ((node.bind after.scene.node?).bind fun n => n.kind.elements?).getD []
    passes := after.scene.stats.passes - before.scene.stats.passes
    aborted := after.scene.stats.aborted - before.scene.stats.aborted
    damage }

/-- Feed events to a new tool that draws into a document. -/
def run (l : Listener R ω) (document : Document R ω) (settings : Settings R)
    (events : List (Event R)) : Except ReplayError (Report R × Document R ω) :=
  match document.current with
  | none => .error .noLayer
  | some layer =>
    let start : Run R ω := ⟨.ofSettings settings, .withViewport document viewport, none⟩
    let r := events.foldl (step l) start
    let after := r.desk.document
    .ok (report document after layer settings.mode events.length r.damage, after)

end Replay

end Freehand
