import Freehand.Document
import Freehand.Scene.InPlace

/-!
# Calls of documents in place

The calls by which a tool writes a stroke, made in place: they check, and then hand on to the scene,
the creation of a path in three calls.
-/

namespace Freehand

/-- A call that changes a document in place. -/
abbrev DocumentAction (R ω : Type) : Type → Type :=
  Action DocumentError (Document R ω)

namespace Document

open Freehand.Action

variable {R ω α : Type}

/-- Ask the document something, which it may refuse to answer. -/
def ask (f : Document R ω → Except DocumentError α) : DocumentAction R ω α := do
  match f (← get) with
  | .ok a => return a
  | .error e => throw e

/-- The document with another stage. -/
def withStage (d : Document R ω) (stage : Stage R ω) : Document R ω :=
  { d with stage }

/-- Hand a call on to the scene. -/
def handOn (c : StageAction R ω α) : DocumentAction R ω α :=
  ExceptT.mk fun d =>
    let (result, stage) := Action.run c d.stage
    (result.mapError .ofScene, d.withStage stage)

/-- Replace the elements of a path, in place. -/
def setPathDataInPlace (node : NodeHandle) (elements : Path R) : DocumentAction R ω Unit := do
  let id ← ask fun d => d.resolveNode node
  match elements with
  | [] | .moveTo _ :: _ => handOn (Action.setPath id elements)
  | _ => throw (.rejected "path data must start with a move")

variable [Scalar R]

/-- Create an empty path in a layer, in place. -/
def createPathNodeInPlace (l : Listener R ω) (layer : LayerHandle) (mode : StrokeMode) :
    DocumentAction R ω NodeHandle := do
  let id ← ask fun d => d.resolveLayer layer
  if (← get).scene.isEffectivelyLocked id then
    throw (.layerRejected layer)
  let placement ← ask fun d => (d.scene.composedTransform id).mapError .ofScene
  let det := placement.determinant
  if det == 0 || !Scalar.isFinite det then
    throw (.rejected ("layer " ++ id.text ++ " has a degenerate transform"))
  let node ← handOn (Action.addChild l id (.path []))
  handOn (Action.setStyle node (styleOf mode))
  handOn (Action.setTransform node placement.inverse)
  return node.toNode

/-- Remove a node with its subtree, in place. -/
def removeNodeInPlace (l : Listener R ω) (node : NodeHandle) : DocumentAction R ω Unit := do
  let id ← ask fun d => d.resolveNode node
  handOn (Action.remove l id)

/-! ## Requests -/

/-- A call of a tool that changes a document. -/
inductive Request (R : Type) where
  /-- Create an empty path in a layer. -/
  | createPathNode (layer : LayerHandle) (mode : StrokeMode)
  /-- Replace the elements of a path. -/
  | setPathData (node : NodeHandle) (elements : Path R)
  /-- Remove a node with its subtree. -/
  | removeNode (node : NodeHandle)

namespace Request

/-- The call, made in place.  It answers with the new node, if there is one. -/
def inPlace (l : Listener R ω) : Request R → DocumentAction R ω (Option NodeHandle)
  | createPathNode layer mode => some <$> createPathNodeInPlace l layer mode
  | setPathData node elements => do
    setPathDataInPlace node elements
    return none
  | removeNode node => do
    removeNodeInPlace l node
    return none

/-- What the call answers and leaves. -/
def perform (l : Listener R ω) (d : Document R ω) :
    Request R → Except DocumentError (Option NodeHandle) × Document R ω
  | createPathNode layer mode =>
    whole d ((d.createPathNode layer mode).map fun (node, d') => (some node, d'))
  | setPathData node elements =>
    whole d ((d.setPathData node elements).map fun d' => (none, d'))
  | removeNode node => whole d ((d.removeNode l node).map fun d' => (none, d'))

end Request

end Document

end Freehand
