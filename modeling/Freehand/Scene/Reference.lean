import Freehand.Scene.Basic

/-!
# References between nodes

A clone references its source, and a node painted with gradients references those.  A reference is
a link at both ends: the owner remembers the target, and the target its subscriber.  A node has at
most one reference of a role.

A node may reference neither itself nor one of its ancestors.  Clones do not show gradients, and
only gradients are painted with.
-/

namespace Freehand.Scene

variable {R : Type}

/-! ## Links -/

/-- The target of a node's reference of a role. -/
def target? (s : Scene R) (owner : NodeId) (role : Role) : Option NodeId :=
  (s.node? owner).bind fun n => (n.references.find? fun l => l.role = role).map Link.node

/-- Remove the reference of a role from `owner` to `target`, at both ends. -/
def unlink (s : Scene R) (owner target : NodeId) (role : Role) : Scene R :=
  (s.modify target fun n =>
    { n with subscribers := n.subscribers.filter fun l => l ≠ ⟨owner, role⟩ }).modify owner fun n =>
      { n with references := n.references.filter fun l => l ≠ ⟨target, role⟩ }

/-- Add a reference of a role from `owner` to `target`, at both ends. -/
def link (s : Scene R) (owner target : NodeId) (role : Role) : Scene R :=
  (s.modify target fun n => { n with subscribers := n.subscribers ++ [⟨owner, role⟩] }).modify owner
    fun n => { n with references := n.references ++ [⟨target, role⟩] }

/-- Let the reference of a role point to nothing. -/
def clearReference (s : Scene R) (owner : NodeId) (role : Role) : Scene R :=
  match s.target? owner role with
  | some old => s.unlink owner old role
  | none => s

/-- Let the reference of a role point to `target`, or to nothing. -/
def setReference (s : Scene R) (owner : NodeId) (role : Role) (target : Option NodeId) : Scene R :=
  if s.target? owner role = target then
    s
  else
    match target with
    | some new => (s.clearReference owner role).link owner new role
    | none => s.clearReference owner role

/-! ## What may be referenced -/

/-- The reference of `owner` to `target` is not refused for where the nodes stand in the tree. -/
def acceptReference (s : Scene R) (owner target : NodeId) : Except SceneError Unit :=
  if !s.contains owner then
    .error (.staleHandle owner)
  else if !s.contains target then
    .error (.staleHandle target)
  else if target = owner ∨ s.isAncestor target owner then
    .error (.referenceRefused owner target)
  else
    .ok ()

/-- The node `owner` may be painted with the node `server`. -/
def checkPaintServer (s : Scene R) (owner server : NodeId) : Except SceneError Unit :=
  if !s.contains owner then
    .error (.staleHandle owner)
  else
    match s.node? server with
    | none => .error (.staleHandle server)
    | some n =>
      if n.kind.isGradient then s.acceptReference owner server else .error (.notAPaintServer server)

/-- The node is a clone. -/
def checkClone (s : Scene R) (id : NodeId) : Except SceneError Unit :=
  match s.node? id with
  | none => .error (.staleHandle id)
  | some n => if n.kind.isClone then .ok () else .error (.notAClone id)

/-- The clone `clone` may show the node `source`. -/
def checkSource (s : Scene R) (clone source : NodeId) : Except SceneError Unit :=
  match s.node? source with
  | none => .error (.staleHandle source)
  | some n =>
    if n.kind.isGradient then .error (.referenceRefused clone source)
    else s.acceptReference clone source

/-! ## Changes -/

/-- Let a clone show a node, or nothing. -/
def setSource (s : Scene R) (clone : NodeId) (source : Option NodeId) : Scene R :=
  ((s.setReference clone .cloneSource source).modify clone fun n =>
    { n with kind := .clone source }).touch clone Role.cloneSource.stale

/-- Let the clone `clone` show the node `source`. -/
def linkClone (s : Scene R) (clone source : NodeId) : Except SceneError (Scene R) := do
  s.checkClone clone
  s.checkSource clone source
  return s.setSource clone (some source)

/-- Let the clone `clone` show nothing. -/
def unlinkClone (s : Scene R) (clone : NodeId) : Except SceneError (Scene R) := do
  s.checkClone clone
  return s.setSource clone none

/-- Paint a part of `owner` with the gradient `server`. -/
def setServer (s : Scene R) (owner server : NodeId) (role : Role) (paint : Style R → Style R) :
    Except SceneError (Scene R) := do
  s.checkPaintServer owner server
  return ((s.setReference owner role (some server)).modify owner fun n =>
    { n with style := paint n.style }).touch owner role.stale

/-- Fill `owner` with the gradient `server`. -/
def setFillServer (s : Scene R) (owner server : NodeId) : Except SceneError (Scene R) :=
  s.setServer owner server .fillServer fun style => { style with fill := .server server }

/-- Paint the outline of `owner` with the gradient `server`. -/
def setStrokeServer (s : Scene R) (owner server : NodeId) : Except SceneError (Scene R) :=
  s.setServer owner server .strokeServer fun style => { style with stroke := .server server }

/-- The node `owner` may be painted as a paint says. -/
def checkPaint (s : Scene R) (owner : NodeId) (p : Paint) : Except SceneError Unit :=
  match p.server? with
  | some server => s.checkPaintServer owner server
  | none => .ok ()

/-- Replace the style of a node, with the references that its paints make. -/
def setStyle (s : Scene R) (id : NodeId) (style : Style R) : Except SceneError (Scene R) := do
  s.checkPaint id style.fill
  s.checkPaint id style.stroke
  if s.contains id then
    let s := s.setReference id .fillServer style.fill.server?
    let s := s.setReference id .strokeServer style.stroke.server?
    return (s.modify id fun n => { n with style }).touch id .paint
  else
    throw (.staleHandle id)

end Freehand.Scene
