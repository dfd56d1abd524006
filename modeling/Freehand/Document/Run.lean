import Freehand.Document
import Freehand.Scene.Run

/-!
# Runs on documents

A document is reachable if operations lead to it from a new one: commands to its scene, whatever
its observers do then, the choice of a layer, and the calls of tools.
-/

namespace Freehand

/-- What is done to a document from outside. -/
inductive Document.Operation (R ω : Type) where
  /-- Give a command to its scene. -/
  | command (command : Command R ω)
  /-- Select the current layer, or none. -/
  | setCurrent (layer : Option NodeId)
  /-- Create an empty path in a layer. -/
  | createPathNode (layer : LayerHandle) (mode : StrokeMode)
  /-- Replace the elements of a path. -/
  | setPathData (node : NodeHandle) (elements : Path R)
  /-- Remove a node with its subtree. -/
  | removeNode (node : NodeHandle)
  /-- Record that a change is complete. -/
  | commit (label : String)

namespace Document

variable {R ω : Type}

/-- The document after a call, or as it is if the call was refused. -/
def afterwards {ε : Type} (d : Document R ω) (r : Except ε (Document R ω)) : Document R ω :=
  r.toOption.getD d

variable [Scalar R]

/-- The document after an operation. -/
def perform (l : Listener R ω) (d : Document R ω) : Operation R ω → Document R ω
  | .command command => { d with stage := d.stage.perform l command }
  | .setCurrent layer => d.afterwards (d.setCurrent layer)
  | .createPathNode layer mode => d.afterwards ((d.createPathNode layer mode).map Prod.snd)
  | .setPathData node elements => d.afterwards (d.setPathData node elements)
  | .removeNode node => d.afterwards (d.removeNode l node)
  | .commit label => d.commit label

/-- Operations lead to the document from a new one. -/
def Reachable (d : Document R ω) : Prop :=
  ∃ (c : Conduct R ω) (depth maxPasses : Nat) (w : ω) (operations : List (Operation R ω)),
    d = operations.foldl (perform (c.listener depth)) (.new maxPasses w)

/-- Operations lead to the document from a new one, while observers keep to a conduct. -/
def ReachedBy (c : Conduct R ω) (depth : Nat) (d : Document R ω) : Prop :=
  ∃ (maxPasses : Nat) (w : ω) (operations : List (Operation R ω)),
    d = operations.foldl (perform (c.listener depth)) (.new maxPasses w)

end Document

end Freehand
