import Freehand.Scene.Run

/-!
# Changes in place

A scene is changed in place: nodes are looked up and changed one after the other, and what was
changed before a step fails stays changed.  Here every change of a scene is written out in this way
(`Action`).  The steps that may fail look a node up, change one node, or check something.

A `Mutator` is a call that changes a scene.  `Mutator.inPlace` makes it step by step, and
`Mutator.perform` says what it does as a whole.
-/

namespace Freehand

/-- An action that changes a state in place.  What it changed before it failed stays changed. -/
abbrev Action (ε σ : Type) : Type → Type :=
  ExceptT ε (StateM σ)

/-- An action that changes a stage in place. -/
abbrev StageAction (R ω : Type) : Type → Type :=
  Action SceneError (Stage R ω)

/-- The stage with another scene. -/
def Stage.withScene {R ω : Type} (st : Stage R ω) (scene : Scene R) : Stage R ω :=
  { st with scene }

namespace Action

/-! ## Carrying actions out -/

section

variable {ε σ α β : Type}

/-- What an action answers, and the state that it leaves. -/
def run (c : Action ε σ α) (st : σ) : Except ε α × σ :=
  StateT.run (m := Id) (ExceptT.run c) st

/-- What is answered and left if something is done as a whole, or not at all. -/
def whole (st : σ) : Except ε (α × σ) → Except ε α × σ
  | .ok (a, st') => (.ok a, st')
  | .error e => (.error e, st)

end

variable {R ω : Type}

/-! ## Steps -/

/-- Look a node up. -/
def look (id : NodeId) : StageAction R ω (Node R) := do
  match (← get).scene.node? id with
  | some n => return n
  | none => throw (.staleHandle id)

/-- Check something. -/
def consult (f : Scene R → Except SceneError Unit) : StageAction R ω Unit := do
  match f (← get).scene with
  | .ok () => return
  | .error e => throw e

/-- Change the scene by a step that cannot fail. -/
def alter (f : Scene R → Scene R) : StageAction R ω Unit :=
  modify fun st => st.withScene (f st.scene)

/-- Change one node. -/
def store (id : NodeId) (f : Node R → Node R) : StageAction R ω Unit := do
  let _ ← look id
  alter fun s => s.modify id f

/-- Mark a node and its ancestors, and ask for an update. -/
def request (id : NodeId) (flags : Flags) : StageAction R ω Unit := do
  let above := (← get).scene.ancestors id
  store id fun n => { n with stale := n.stale ∪ flags }
  alter fun s => (Scene.markChain flags s above).schedule

/-! ## Changes of one node -/

/-- Let the reference of a role point to `target`, or to nothing. -/
def setReference (owner : NodeId) (role : Role) (target : Option NodeId) :
    StageAction R ω Unit := do
  let n ← look owner
  if (n.references.find? fun l => l.role = role).map Link.node = target then
    return
  else
    alter fun s => s.clearReference owner role
    match target with
    | none => return
    | some new =>
      store new fun m => { m with subscribers := m.subscribers ++ [⟨owner, role⟩] }
      store owner fun n => { n with references := n.references ++ [⟨new, role⟩] }

/-- Replace the elements of a path. -/
def setPath (id : NodeId) (elements : Path R) : StageAction R ω Unit := do
  let n ← look id
  if n.kind.isPath then
    store id fun n => { n with kind := .path elements }
    request id .shape
  else
    throw (.notAPath id)

/-- Replace the placement of a node in its parent. -/
def setTransform (id : NodeId) (transform : Affine R) : StageAction R ω Unit := do
  store id fun n => { n with transform }
  request id .shape

/-- Change a node, unless it is so already. -/
def changeUnless (id : NodeId) (isSo : Node R → Bool) (f : Node R → Node R) (flags : Flags) :
    StageAction R ω Unit := do
  let n ← look id
  if isSo n then
    return
  else
    store id f
    request id flags

/-- Replace the style of a node, with the references that its paints make. -/
def setStyle (id : NodeId) (style : Style R) : StageAction R ω Unit := do
  consult fun s => s.checkPaint id style.fill
  consult fun s => s.checkPaint id style.stroke
  setReference id .fillServer style.fill.server?
  setReference id .strokeServer style.stroke.server?
  store id fun n => { n with style }
  request id .paint

/-- Let a clone show a node, or nothing. -/
def setSource (clone : NodeId) (source : Option NodeId) : StageAction R ω Unit := do
  setReference clone .cloneSource source
  store clone fun n => { n with kind := .clone source }
  request clone Role.cloneSource.stale

/-- Let the clone `clone` show the node `source`. -/
def linkClone (clone source : NodeId) : StageAction R ω Unit := do
  consult fun s => s.checkClone clone
  consult fun s => s.checkSource clone source
  setSource clone (some source)

/-- Let the clone `clone` show nothing. -/
def unlinkClone (clone : NodeId) : StageAction R ω Unit := do
  consult fun s => s.checkClone clone
  setSource clone none

/-- Paint a part of `owner` with the gradient `server`. -/
def setServer (owner server : NodeId) (role : Role) (paint : Style R → Style R) :
    StageAction R ω Unit := do
  consult fun s => s.checkPaintServer owner server
  setReference owner role (some server)
  store owner fun n => { n with style := paint n.style }
  request owner role.stale

/-! ## Changes of the tree -/

/-- Take a node from its parent's children. -/
def detach (parent : Option NodeId) (id : NodeId) : StageAction R ω Unit :=
  match parent with
  | some p => store p fun m => { m with children := m.children.filter fun c => c ≠ id }
  | none => pure ()

/-- Tell a parent that it lost a child. -/
def tellParent (parent : Option NodeId) : StageAction R ω Unit :=
  match parent with
  | some p => request p .membership
  | none => pure ()

variable [Scalar R]

/-- Free a subtree, and tell the observers. -/
def free (l : Listener R ω) (id : NodeId) : StageAction R ω Unit :=
  modify fun st =>
    let freed := st.scene.subtree id
    Stage.announce l (st.withScene (freed.foldl Scene.release st.scene)) freed

/-- Remove a node with its subtree. -/
def remove (l : Listener R ω) (id : NodeId) : StageAction R ω Unit := do
  if id = (← get).scene.root then
    throw .removeRoot
  else
    let n ← look id
    detach n.parent id
    alter fun s => s.addDamage n.box
    free l id
    tellParent n.parent

omit [Scalar R] in
/-- Store a new node, which nothing leads to. -/
def insert (n : Node R) : StageAction R ω NodeId :=
  modifyGet fun st =>
    let (id, nodes) := st.scene.nodes.insert n
    (id, st.withScene { st.scene with nodes })

/-- Add a node as the last child of a group. -/
def addChild (l : Listener R ω) (parent : NodeId) (kind : Kind R) : StageAction R ω NodeId := do
  let n ← look parent
  if n.kind.isGroup then
    let id ← insert (.ofKind (Scene.unlinked kind) (some parent))
    store parent fun n => { n with children := n.children ++ [id] }
    request parent .membership
    request id .created
    match kind.source? with
    | none => return id
    | some source =>
      tryCatch (linkClone id source) fun e => do
        remove l id
        throw e
      return id
  else
    throw (.notAGroup parent)

end Action

/-- The change, made in place. -/
def Edit.inPlace {R ω : Type} : Edit R → StageAction R ω Unit
  | setPath id elements => Action.setPath id elements
  | setTransform id transform => Action.setTransform id transform
  | setHidden id hidden =>
    Action.changeUnless id (fun n => n.hidden == hidden) (fun n => { n with hidden }) .visibility
  | setLocked id locked =>
    Action.changeUnless id (fun n => n.locked == locked) (fun n => { n with locked }) .paint
  | setStyle id style => Action.setStyle id style
  | linkClone clone source => Action.linkClone clone source
  | unlinkClone clone => Action.unlinkClone clone
  | setFillServer owner server =>
    Action.setServer owner server .fillServer fun style => { style with fill := .server server }
  | setStrokeServer owner server =>
    Action.setServer owner server .strokeServer fun style => { style with stroke := .server server }
  | requestUpdate id flags => Action.request id flags

/-! ## Calls -/

/-- A call that changes a scene. -/
inductive Mutator (R : Type) where
  /-- Change a node. -/
  | edit (e : Edit R)
  /-- Add a node as the last child of a group. -/
  | addChild (parent : NodeId) (kind : Kind R)
  /-- Remove a node with its subtree. -/
  | remove (id : NodeId)

namespace Mutator

variable {R ω : Type} [Scalar R]

/-- The call, made in place.  It answers with the new node, if there is one. -/
def inPlace (l : Listener R ω) : Mutator R → StageAction R ω (Option NodeId)
  | edit e => do
    e.inPlace
    return none
  | addChild parent kind => some <$> Action.addChild l parent kind
  | remove id => do
    Action.remove l id
    return none

/-- What the call answers and leaves. -/
def perform (l : Listener R ω) (st : Stage R ω) :
    Mutator R → Except SceneError (Option NodeId) × Stage R ω
  | edit e => Action.whole st ((st.edit e.apply).map fun st' => (none, st'))
  | addChild parent kind =>
    let (result, st') := st.addChild l parent kind
    (result.map some, st')
  | remove id => Action.whole st ((st.remove l id).map fun st' => (none, st'))

end Mutator

end Freehand
