import Freehand.Geometry.Path
import Freehand.Scene.Arena
import Freehand.Scene.Flags

/-!
# Nodes of a scene

A node is a group of other nodes, a path, a clone of another node, or a gradient that other nodes
are painted with.  Besides what it is and where it stands in the tree a node holds

* what is *stale* about it, and what has *changed* about it since its observers were told,
* its placement, opacity and bounding box in the document as of the last update, and
* the links between nodes that reference each other, kept at both ends.
-/

namespace Freehand

/-- A linear colour. -/
structure Color where
  /-- The red part. -/
  red : Float32
  /-- The green part. -/
  green : Float32
  /-- The blue part. -/
  blue : Float32
  /-- How opaque the colour is. -/
  alpha : Float32
  deriving BEq, Repr, Inhabited

/-- Opaque black. -/
def Color.black : Color :=
  ⟨0, 0, 0, 1⟩

/-- A colour at some place of a gradient. -/
structure GradientStop (R : Type) where
  /-- The place, from 0 to 1. -/
  offset : R
  /-- The colour. -/
  color : Color
  deriving BEq, Repr, Inhabited

/-- How an area is painted. -/
inductive Paint where
  /-- Not at all. -/
  | none
  /-- With one colour. -/
  | color (c : Color)
  /-- As another node says. -/
  | server (id : NodeId)
  deriving BEq, Repr, Inhabited

/-- The node that says how to paint, if there is one. -/
def Paint.server? : Paint → Option NodeId
  | server id => some id
  | _ => Option.none

/-- The paint after the node `id` went away. -/
def Paint.without (id : NodeId) (p : Paint) : Paint :=
  if p.server? = some id then Paint.none else p

/-- How a node is painted. -/
structure Style (R : Type) where
  /-- The paint of the interior. -/
  fill : Paint
  /-- The paint of the outline. -/
  stroke : Paint
  /-- The width of the outline. -/
  strokeWidth : R
  /-- How opaque the node is. -/
  opacity : R
  deriving BEq, Repr, Inhabited

namespace Style

variable {R : Type} [Scalar R]

/-- A black interior and no outline. -/
def filled : Style R :=
  ⟨.color .black, .none, 1, 1⟩

/-- A black outline of width one and no interior. -/
def stroked : Style R :=
  ⟨.none, .color .black, 1, 1⟩

end Style

/-- What a node is. -/
inductive Kind (R : Type) where
  /-- A container.  Layers are the groups that new drawing can go into. -/
  | group (layer : Bool)
  /-- A path. -/
  | path (elements : Path R)
  /-- Another node, placed anew. -/
  | clone (source : Option NodeId)
  /-- A gradient to paint with. -/
  | gradient (stops : List (GradientStop R))
  deriving Repr, Inhabited

namespace Kind

variable {R : Type}

/-- The node can own children. -/
def isGroup : Kind R → Bool
  | group _ => true
  | _ => false

/-- The node is a layer. -/
def isLayer : Kind R → Bool
  | group layer => layer
  | _ => false

/-- The node is a path. -/
def isPath : Kind R → Bool
  | path _ => true
  | _ => false

/-- The node is a clone. -/
def isClone : Kind R → Bool
  | clone _ => true
  | _ => false

/-- The node is a gradient. -/
def isGradient : Kind R → Bool
  | gradient _ => true
  | _ => false

/-- The node that a clone shows, if it is linked. -/
def source? : Kind R → Option NodeId
  | clone source => source
  | _ => none

/-- The elements of a path. -/
def elements? : Kind R → Option (Path R)
  | path elements => some elements
  | _ => none

end Kind

/-- Why a node references another one. -/
inductive Role where
  /-- To show it. -/
  | cloneSource
  /-- To paint the interior with it. -/
  | fillServer
  /-- To paint the outline with it. -/
  | strokeServer
  deriving DecidableEq, Repr, Inhabited

/-- What is stale about a node when a node it references changes. -/
def Role.stale : Role → Flags
  | cloneSource => .shape
  | fillServer | strokeServer => .paint

/-- One end of a reference: the node at the other end, and what the reference is for. -/
structure Link where
  /-- The node at the other end. -/
  node : NodeId
  /-- What the reference is for. -/
  role : Role
  deriving DecidableEq, Repr, Inhabited

/-- A node of a scene. -/
structure Node (R : Type) where
  /-- What the node is. -/
  kind : Kind R
  /-- How the node is painted. -/
  style : Style R
  /-- The placement of the node in its parent. -/
  transform : Affine R
  /-- The node is not shown. -/
  hidden : Bool
  /-- The node may not be changed by the tool. -/
  locked : Bool
  /-- The node that owns this one. -/
  parent : Option NodeId
  /-- The nodes that this one owns, in drawing order. -/
  children : List NodeId
  /-- What must be recomputed. -/
  stale : Flags
  /-- What was recomputed since observers were told. -/
  changed : Flags
  /-- The placement in the document as of the last update. -/
  world : Affine R
  /-- The bounding box in the document as of the last update. -/
  box : Option (Rect R)
  /-- The opacity in the document as of the last update. -/
  opacity : R
  /-- The nodes that reference this one. -/
  subscribers : List Link
  /-- The nodes that this one references. -/
  references : List Link
  deriving Repr

namespace Node

variable {R : Type} [Scalar R]

/-- A new node. -/
def ofKind (kind : Kind R) (parent : Option NodeId) : Node R where
  kind
  style := .filled
  transform := .identity
  hidden := false
  locked := false
  parent
  children := []
  stale := ∅
  changed := ∅
  world := .identity
  box := none
  opacity := 1
  subscribers := []
  references := []

omit [Scalar R] in
/-- There is something to recompute, or something to tell observers. -/
def isDirty (n : Node R) : Bool :=
  !(n.stale ∪ n.changed).isEmpty

end Node

end Freehand
