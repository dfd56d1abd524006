import Freehand.Environment
import Freehand.Replay

/-!
# The demonstration

What the program does: it draws one wave in each chosen mode into a new document and reports what
each of them left there.
-/

namespace Freehand

/-- Why a demonstration failed. -/
inductive DemonstrationError where
  /-- The settings could not be read. -/
  | settings (e : SettingsError)
  /-- A replay was refused. -/
  | replay (e : ReplayError)
  deriving DecidableEq, Repr

/-- What is wrong, in words. -/
def DemonstrationError.message : DemonstrationError → String
  | settings e => e.message
  | replay e => e.message

namespace Demonstration

variable {R : Type} [DecimalScalar R]

/-- The number of moves of each wave. -/
def samples : Nat :=
  64

/-- Where the wave of the mode at a position starts. -/
def origin (i : Nat) : Point R :=
  ⟨120.0, 200.0 + 250.0 * Scalar.ofNat i⟩

/-- Draw the waves of modes, the first of which stands at position `i`. -/
def draw (base : Settings R) (document : Document R Unit) (i : Nat) :
    List StrokeMode → Except ReplayError (List (Report R) × Document R Unit)
  | [] => .ok ([], document)
  | mode :: rest => do
    let (report, document) ←
      Replay.run .silent document { base with mode } (Replay.wave (origin i) samples)
    let (reports, document) ← draw base document (i + 1) rest
    return (report :: reports, document)

/-- The reports of a run with given options. -/
def run (options : Options) : Except DemonstrationError (List (Report R)) := do
  let base : Settings R ← options.settings.mapError .settings
  let (reports, _) ←
    (draw base (.new Scene.standardPasses ()) 0 options.modes).mapError .replay
  return reports

end Demonstration

/-! ## Reports as JSON -/

section Json

variable {R : Type} [DecimalScalar R]

/-- A point as JSON. -/
def Point.toJson (p : Point R) : Json :=
  .record [("x", .scalar p.x), ("y", .scalar p.y)]

/-- A rectangle as JSON. -/
def Rect.toJson (r : Rect R) : Json :=
  .record [("x0", .scalar r.x0), ("y0", .scalar r.y0), ("x1", .scalar r.x1), ("y1", .scalar r.y1)]

/-- A path element as JSON. -/
def PathElement.toJson : PathElement R → Json
  | moveTo p => .record [("MoveTo", p.toJson)]
  | lineTo p => .record [("LineTo", p.toJson)]
  | quadTo c p => .record [("QuadTo", .array [c.toJson, p.toJson])]
  | curveTo c1 c2 p => .record [("CurveTo", .array [c1.toJson, c2.toJson, p.toJson])]
  | close => .text "ClosePath"

/-- An identifier as JSON. -/
def NodeId.toJson (id : NodeId) : Json :=
  .record [("index", .nat id.index.toNat), ("generation", .nat id.generation.toNat)]

/-- A report as JSON. -/
def Report.toJson (r : Report R) : Json :=
  .record
    [("mode", .text r.mode.name),
     ("events", .nat r.events),
     ("node", (r.node.map NodeId.toJson).getD .null),
     ("elements", .array (r.elements.map PathElement.toJson)),
     ("passes", .nat r.passes),
     ("aborted", .nat r.aborted),
     ("damage", (r.damage.map Rect.toJson).getD .null)]

end Json

end Freehand
