import Freehand.Scene.Reference

/-!
# Changing a scene

Every change stores the new value and marks what it makes stale; nothing is recomputed until the
next update.

* Hiding, showing, locking and unlocking a node that is so already changes nothing.
* Removing a node frees its whole subtree, children first.  Nodes that reference a freed node drop
  the reference and what they hold of it.
* A new clone of a node that it may not show is removed again.

Walks along children are bounded by the number of slots, as no branch of the tree is longer.
-/

namespace Freehand.Scene

variable {R : Type}

/-! ## Attributes -/

/-- Replace the elements of a path. -/
def setPath (s : Scene R) (id : NodeId) (elements : Path R) : Except SceneError (Scene R) :=
  match s.node? id with
  | none => .error (.staleHandle id)
  | some n =>
    if n.kind.isPath then
      .ok ((s.modify id fun n => { n with kind := .path elements }).touch id .shape)
    else
      .error (.notAPath id)

/-- Replace the placement of a node in its parent. -/
def setTransform (s : Scene R) (id : NodeId) (transform : Affine R) :
    Except SceneError (Scene R) :=
  if s.contains id then
    .ok ((s.modify id fun n => { n with transform }).touch id .shape)
  else
    .error (.staleHandle id)

/-- Change a node, unless it is so already. -/
def changeUnless (s : Scene R) (id : NodeId) (isSo : Node R → Bool) (f : Node R → Node R)
    (flags : Flags) : Except SceneError (Scene R) :=
  match s.node? id with
  | none => .error (.staleHandle id)
  | some n => if isSo n then .ok s else .ok ((s.modify id f).touch id flags)

/-- Hide or show a node. -/
def setHidden (s : Scene R) (id : NodeId) (hidden : Bool) : Except SceneError (Scene R) :=
  s.changeUnless id (fun n => n.hidden == hidden) (fun n => { n with hidden }) .visibility

/-- Lock or unlock a node. -/
def setLocked (s : Scene R) (id : NodeId) (locked : Bool) : Except SceneError (Scene R) :=
  s.changeUnless id (fun n => n.locked == locked) (fun n => { n with locked }) .paint

/-! ## Removing nodes -/

/-- The nodes of a subtree of at most `n` levels, children first. -/
def postorder (s : Scene R) : (n : Nat) → NodeId → List NodeId
  | 0, _ => []
  | n + 1, id =>
    match s.node? id with
    | none => []
    | some node => node.children.flatMap (s.postorder n) ++ [id]

/-- The nodes of a subtree, children first. -/
def subtree (s : Scene R) (id : NodeId) : List NodeId :=
  s.postorder s.nodes.slots.size id

/-- What a node keeps after the node `target`, which it references in a role, went away. -/
def withoutTarget (target : NodeId) (role : Role) (n : Node R) : Node R :=
  let n := { n with references := n.references.filter fun l => l ≠ ⟨target, role⟩ }
  match role with
  | .cloneSource =>
    if n.kind.source? = some target then { n with kind := .clone none } else n
  | .fillServer => { n with style := { n.style with fill := n.style.fill.without target } }
  | .strokeServer => { n with style := { n.style with stroke := n.style.stroke.without target } }

/-- Let a subscriber drop its reference to `target`. -/
def dropReference (target : NodeId) (s : Scene R) (subscriber : Link) : Scene R :=
  (s.modify subscriber.node (withoutTarget target subscriber.role)).touch subscriber.node
    subscriber.role.stale

/-- Free one node, with the references to it and from it. -/
def release (s : Scene R) (id : NodeId) : Scene R :=
  match s.node? id with
  | none => s
  | some n =>
    let s := s.modify id fun n => { n with subscribers := [], references := [] }
    let s := n.subscribers.foldl (dropReference id) s
    let s := n.references.foldl (fun s l => s.unlink id l.node l.role) s
    { s with nodes := s.nodes.remove id }

/-- Take a node from its parent's children. -/
def detach (s : Scene R) (parent : Option NodeId) (id : NodeId) : Scene R :=
  match parent with
  | some p => s.modify p fun n => { n with children := n.children.filter fun c => c ≠ id }
  | none => s

/-- Tell a parent that it lost a child. -/
def touchParent (s : Scene R) (parent : Option NodeId) : Scene R :=
  match parent with
  | some p => s.touch p .membership
  | none => s

variable [Scalar R]

/-- Remove a node with its subtree.  Also names the freed nodes in the order of their release. -/
def remove (s : Scene R) (id : NodeId) : Except SceneError (Scene R × List NodeId) :=
  if id = s.root then
    .error .removeRoot
  else
    match s.node? id with
    | none => .error (.staleHandle id)
    | some n =>
      let s := (s.detach n.parent id).addDamage n.box
      let freed := s.subtree id
      .ok ((freed.foldl release s).touchParent n.parent, freed)

/-! ## Adding nodes -/

/-- What adding a node did. -/
structure Addition (R : Type) where
  /-- The new node, or why there is none. -/
  result : Except SceneError NodeId
  /-- The scene afterwards. -/
  scene : Scene R
  /-- The nodes freed on the way. -/
  freed : List NodeId

/-- A new node as the last child of a group, not linked to anything. -/
def insertChild (s : Scene R) (parent : NodeId) (kind : Kind R) : NodeId × Scene R :=
  let (id, nodes) := s.nodes.insert (.ofKind kind (some parent))
  let s := { s with nodes }
  let s := s.modify parent fun n => { n with children := n.children ++ [id] }
  (id, (s.touch parent .membership).touch id .created)

/-- A kind without the node that it shows. -/
def unlinked : Kind R → Kind R
  | .clone _ => .clone none
  | kind => kind

/-- Take back a node that was added, for the reason `e`. -/
def takeBack (s : Scene R) (id : NodeId) (e : SceneError) : Addition R :=
  match s.remove id with
  | .ok (s, freed) => ⟨.error e, s, freed⟩
  | .error e => ⟨.error e, s, []⟩

/-- Add a node as the last child of a group. -/
def addChild (s : Scene R) (parent : NodeId) (kind : Kind R) : Addition R :=
  match s.node? parent with
  | none => ⟨.error (.staleHandle parent), s, []⟩
  | some n =>
    if n.kind.isGroup then
      let (id, s) := s.insertChild parent (unlinked kind)
      match kind.source? with
      | none => ⟨.ok id, s, []⟩
      | some source =>
        match s.linkClone id source with
        | .ok s => ⟨.ok id, s, []⟩
        | .error e => s.takeBack id e
    else
      ⟨.error (.notAGroup parent), s, []⟩

end Freehand.Scene
