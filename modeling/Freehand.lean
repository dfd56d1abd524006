import Freehand.Fit.Deviation
import Freehand.Main
import Freehand.Proofs.Capture.Loop
import Freehand.Proofs.Capture.Stroke
import Freehand.Proofs.Document.Placement
import Freehand.Proofs.Geometry.Drawing
import Freehand.Proofs.Replay.Strokes
import Freehand.Proofs.Scalar.Binary64
import Freehand.Proofs.Scene.Content
import Freehand.Proofs.Scene.Coverage
import Freehand.Proofs.Scene.Cycles
import Freehand.Proofs.Scene.Ledger
import Freehand.Proofs.Scene.Locality
import Freehand.Proofs.Scene.Reachable
import Freehand.Proofs.Scene.Renewal
import Freehand.Proofs.Scene.Schedule
import Freehand.Proofs.Scene.Telling
import Freehand.Proofs.Settings.Ranges
import Freehand.Proofs.Tool.Isolation
import Freehand.Proofs.Tool.ModeChange
import Freehand.Proofs.Tool.Protocol
import Freehand.Proofs.Tool.Repaint
import Freehand.Proofs.Fit.Budget
import Freehand.Proofs.Capture.Rest
import Freehand.Proofs.Curve.Building
import Freehand.Proofs.Curve.Reversal
import Freehand.Proofs.Curve.Subpaths
import Freehand.Proofs.Tool.Pacing
import Freehand.Proofs.Pen.Tip
