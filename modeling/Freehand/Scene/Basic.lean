import Freehand.Scene.Node

/-!
# Scenes

A scene is a tree of nodes in an arena, with what its scheduler knows.

* A change of a node marks what is stale on the node and on all its ancestors, and asks for an
  update.  The walk up stops at the first ancestor that carries the marks already, since everything
  above it carries them too.
* One update at most is outstanding.  Each update that is asked for gets the next token.
* The damage is the area that changed since it was last taken.

Walks along parents are bounded by the number of slots: a node has fewer ancestors than there are
nodes.
-/

namespace Freehand

/-- Why a scene refused a change. -/
inductive SceneError where
  /-- There is no such node. -/
  | staleHandle (id : NodeId)
  /-- The node cannot own children. -/
  | notAGroup (id : NodeId)
  /-- The node has no path. -/
  | notAPath (id : NodeId)
  /-- The node shows no other node. -/
  | notAClone (id : NodeId)
  /-- The node cannot be painted with. -/
  | notAPaintServer (id : NodeId)
  /-- The one node may not reference the other. -/
  | referenceRefused (owner target : NodeId)
  /-- The root stays. -/
  | removeRoot
  deriving DecidableEq, Repr

/-- What is wrong, in words. -/
def SceneError.message : SceneError → String
  | staleHandle id => "Stale or unknown node handle " ++ id.text
  | notAGroup id => "Node " ++ id.text ++ " cannot own children"
  | notAPath id => "Node " ++ id.text ++ " is not a path"
  | notAClone id => "Node " ++ id.text ++ " is not a clone"
  | notAPaintServer id => "Node " ++ id.text ++ " is not a paint server"
  | referenceRefused owner target =>
    "Node " ++ owner.text ++ " may not reference " ++ target.text
  | removeRoot => "The root node cannot be removed"

/-- What a scheduler has done so far. -/
structure UpdateStats where
  /-- Updates asked for. -/
  scheduled : Nat
  /-- Passes over the scene. -/
  passes : Nat
  /-- Updates given up. -/
  aborted : Nat
  deriving DecidableEq, Repr, Inhabited

/-- A tree of nodes. -/
structure Scene (R : Type) where
  /-- The nodes. -/
  nodes : Arena (Node R)
  /-- The root of the tree. -/
  root : NodeId
  /-- The number of passes after which an update is given up. -/
  maxPasses : Nat
  /-- The token of the update that is outstanding. -/
  pending : Option Nat
  /-- The token handed out last, or zero. -/
  lastToken : Nat
  /-- The area that changed since it was last taken. -/
  damage : Option (Rect R)
  /-- What the scheduler has done so far. -/
  stats : UpdateStats

namespace Scene

variable {R : Type}

/-- The number of passes after which an update is given up by default. -/
def standardPasses : Nat :=
  16

/-- A scene with a root only. -/
def new [Scalar R] (maxPasses : Nat) : Scene R :=
  let (root, nodes) := Arena.empty.insert (.ofKind (.group false) none)
  ⟨nodes, root, maxPasses, none, 0, none, ⟨0, 0, 0⟩⟩

instance [Scalar R] : Inhabited (Scene R) := ⟨new standardPasses⟩

/-! ## Looking at nodes -/

/-- The node with an identifier. -/
def node? (s : Scene R) (id : NodeId) : Option (Node R) :=
  s.nodes.get? id

/-- There is a node with an identifier. -/
def contains (s : Scene R) (id : NodeId) : Bool :=
  s.nodes.contains id

/-- The number of nodes. -/
def size (s : Scene R) : Nat :=
  s.nodes.size

/-- The parent of a node. -/
def parent? (s : Scene R) (id : NodeId) : Option NodeId :=
  (s.node? id).bind Node.parent

/-- A chain of parents from `start` up, of at most `n` nodes. -/
def chain (s : Scene R) : (n : Nat) → (start : Option NodeId) → List NodeId
  | n + 1, some id => id :: s.chain n (s.parent? id)
  | _, _ => []

/-- The ancestors of a node, nearest first. -/
def ancestors (s : Scene R) (id : NodeId) : List NodeId :=
  s.chain s.nodes.slots.size (s.parent? id)

/-- The one node is an ancestor of the other. -/
def isAncestor (s : Scene R) (ancestor id : NodeId) : Bool :=
  (s.ancestors id).contains ancestor

/-- Some node of a list has a property. -/
def anyNode (s : Scene R) (p : Node R → Bool) (ids : List NodeId) : Bool :=
  ids.any fun id => (s.node? id).any p

/-- The node or one of its ancestors is hidden. -/
def isEffectivelyHidden (s : Scene R) (id : NodeId) : Bool :=
  s.anyNode Node.hidden (id :: s.ancestors id)

/-- The node or one of its ancestors is locked. -/
def isEffectivelyLocked (s : Scene R) (id : NodeId) : Bool :=
  s.anyNode Node.locked (id :: s.ancestors id)

/-- The placement of a node in the document, from the present placements of its ancestors. -/
def composedTransform [Scalar R] (s : Scene R) (id : NodeId) : Except SceneError (Affine R) :=
  match s.node? id with
  | some n =>
    .ok (((s.ancestors id).filterMap s.node?).foldl (fun m a => a.transform * m) n.transform)
  | none => .error (.staleHandle id)

/-! ## Marking -/

/-- The scene with a node replaced; unchanged if there is no such node. -/
def modify (s : Scene R) (id : NodeId) (f : Node R → Node R) : Scene R :=
  { s with nodes := s.nodes.modify id f }

/-- Ask for an update, unless one is outstanding. -/
def schedule (s : Scene R) : Scene R :=
  match s.pending with
  | some _ => s
  | none =>
    let token := s.lastToken + 1
    { s with
      pending := some token
      lastToken := token
      stats := { s.stats with scheduled := s.stats.scheduled + 1 } }

/-- Mark aspects stale on a node. -/
def mark (s : Scene R) (flags : Flags) (id : NodeId) : Scene R :=
  s.modify id fun n => { n with stale := n.stale ∪ flags }

/-- Mark aspects stale along a chain of nodes, up to the first one that carries the marks. -/
def markChain (flags : Flags) (s : Scene R) : List NodeId → Scene R
  | [] => s
  | id :: rest =>
    match s.node? id with
    | none => s
    | some n => if n.stale.contains flags then s else markChain flags (s.mark flags id) rest

/-- Mark aspects stale on a node and its ancestors and ask for an update; nothing happens if there
is no such node. -/
def touch (s : Scene R) (id : NodeId) (flags : Flags) : Scene R :=
  if s.contains id then
    (markChain flags (s.mark flags id) (s.ancestors id)).schedule
  else
    s

/-- Mark aspects stale on a node and its ancestors and ask for an update. -/
def requestUpdate (s : Scene R) (id : NodeId) (flags : Flags) : Except SceneError (Scene R) :=
  if s.contains id then .ok (s.touch id flags) else .error (.staleHandle id)

/-! ## Damage -/

/-- The scene with an area damaged. -/
def addDamage [Scalar R] (s : Scene R) (area : Option (Rect R)) : Scene R :=
  { s with damage := Rect.join s.damage area }

/-- The damage, and the scene without it. -/
def takeDamage (s : Scene R) : Option (Rect R) × Scene R :=
  (s.damage, { s with damage := none })

end Scene

end Freehand
