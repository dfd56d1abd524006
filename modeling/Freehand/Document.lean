import Freehand.Host
import Freehand.Scene.Stage

/-!
# Documents

A document is an observed scene with a current layer and a list of committed changes.  It answers
the calls by which the tool writes a stroke.

* Handles are identifiers of nodes as words.
* A new path carries the inverse placement of its layer, so its elements are read in document
  coordinates wherever the layer stands.  A layer whose placement has no inverse is refused.
* The elements of a path must start with a move.
-/

namespace Freehand

/-- A scene that strokes are written into. -/
structure Document (R ω : Type) where
  /-- The scene with its observers. -/
  stage : Stage R ω
  /-- The layer that new drawing goes into. -/
  current : Option NodeId
  /-- The names of the committed changes, oldest first. -/
  history : List String

/-- The handle of a layer. -/
def NodeId.toLayer (id : NodeId) : LayerHandle :=
  ⟨id.toBits⟩

/-- The handle of a node. -/
def NodeId.toNode (id : NodeId) : NodeHandle :=
  ⟨id.toBits⟩

/-- The layer that a handle stands for. -/
def LayerHandle.id (h : LayerHandle) : NodeId :=
  .ofBits h.bits

/-- The node that a handle stands for. -/
def NodeHandle.id (h : NodeHandle) : NodeId :=
  .ofBits h.bits

/-- A refusal of the scene as one of the document. -/
def DocumentError.ofScene (e : SceneError) : DocumentError :=
  .rejected e.message

namespace Document

variable {R ω : Type}

/-- The scene of a document. -/
def scene (d : Document R ω) : Scene R :=
  d.stage.scene

/-- The document with another scene. -/
def withScene (d : Document R ω) (scene : Scene R) : Document R ω :=
  { d with stage := { d.stage with scene } }

/-! ## Layers -/

/-- A document with one empty layer, which is the current one. -/
def new [Scalar R] (maxPasses : Nat) (world : ω) : Document R ω :=
  let scene : Scene R := .new maxPasses
  let added := scene.addChild scene.root (.group true)
  ⟨.ofScene added.scene world, added.result.toOption, []⟩

/-- The node is a layer. -/
def isLayer (d : Document R ω) (id : NodeId) : Bool :=
  (d.scene.node? id).any fun n => n.kind.isLayer

/-- Select the current layer, or none. -/
def setCurrent (d : Document R ω) (layer : Option NodeId) : Except SceneError (Document R ω) :=
  match layer with
  | none => .ok { d with current := none }
  | some id =>
    if !d.scene.contains id then .error (.staleHandle id)
    else if d.isLayer id then .ok { d with current := some id }
    else .error (.notAGroup id)

/-- The paths directly under a node. -/
def pathsIn (d : Document R ω) (layer : NodeId) : List NodeId :=
  match d.scene.node? layer with
  | none => []
  | some n => n.children.filter fun c => (d.scene.node? c).any fun n => n.kind.isPath

/-! ## Calls of the tool -/

/-- The current layer, if it still exists. -/
def currentLayer? (d : Document R ω) : Option LayerHandle :=
  (d.current.filter d.scene.contains).map NodeId.toLayer

/-- The layer that a handle stands for, if it is one. -/
def resolveLayer (d : Document R ω) (layer : LayerHandle) : Except DocumentError NodeId :=
  if d.isLayer layer.id then .ok layer.id else .error (.unknownLayer layer)

/-- The node that a handle stands for, if there is one. -/
def resolveNode (d : Document R ω) (node : NodeHandle) : Except DocumentError NodeId :=
  if d.scene.contains node.id then .ok node.id else .error (.unknownNode node)

/-- Whether a layer accepts new drawing. -/
def layerState (d : Document R ω) (layer : LayerHandle) : Except DocumentError LayerState := do
  let id ← d.resolveLayer layer
  return ⟨d.scene.isEffectivelyHidden id, d.scene.isEffectivelyLocked id⟩

/-- Replace the elements of a path. -/
def setPathData (d : Document R ω) (node : NodeHandle) (elements : Path R) :
    Except DocumentError (Document R ω) := do
  let id ← d.resolveNode node
  match elements with
  | [] | .moveTo _ :: _ =>
    let scene ← (d.scene.setPath id elements).mapError .ofScene
    return d.withScene scene
  | _ => throw (.rejected "path data must start with a move")

/-- Record that a change is complete. -/
def commit (d : Document R ω) (label : String) : Document R ω :=
  { d with history := d.history ++ [label] }

variable [Scalar R]

/-- How the strokes of a mode are painted. -/
def styleOf : StrokeMode → Style R
  | .line => .stroked
  | .calligraphic => .filled

/-- Add an empty path with a style and a placement. -/
def addPath (s : Scene R) (parent : NodeId) (style : Style R) (transform : Affine R) :
    Except SceneError (NodeId × Scene R) := do
  let added := s.addChild parent (.path [])
  let id ← added.result
  let s ← added.scene.setStyle id style
  let s ← s.setTransform id transform
  return (id, s)

/-- Create an empty path in a layer. -/
def createPathNode (d : Document R ω) (layer : LayerHandle) (mode : StrokeMode) :
    Except DocumentError (NodeHandle × Document R ω) := do
  let id ← d.resolveLayer layer
  if d.scene.isEffectivelyLocked id then
    throw (.layerRejected layer)
  let placement ← (d.scene.composedTransform id).mapError .ofScene
  let det := placement.determinant
  if det == 0 || !Scalar.isFinite det then
    throw (.rejected ("layer " ++ id.text ++ " has a degenerate transform"))
  let (node, scene) ← (addPath d.scene id (styleOf mode) placement.inverse).mapError .ofScene
  return (node.toNode, d.withScene scene)

/-- Remove a node with its subtree. -/
def removeNode (l : Listener R ω) (d : Document R ω) (node : NodeHandle) :
    Except DocumentError (Document R ω) := do
  let id ← d.resolveNode node
  let stage ← (d.stage.remove l id).mapError .ofScene
  return { d with stage }

end Document

end Freehand
