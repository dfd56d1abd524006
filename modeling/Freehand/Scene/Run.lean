import Freehand.Scene.Stage

/-!
# Runs

A run carries out commands on a stage one after the other.  A command that is refused leaves the
stage as it is, apart from what adding a node did before the node was taken back.

Observers are part of a run.  A `Conduct` says which commands an observer gives when it is told
something, depending on all that it can see, and `Conduct.listener` carries them out.  Such a
command may let the scene settle again, inside the update that told the observer.  Updates are
nested down to a given depth; observers that are told something deeper down do nothing.

`Scene.Reachable` scenes are those of a stage after some run.
-/

namespace Freehand

/-! ## Edits -/

/-- A change of one node. -/
inductive Edit (R : Type) where
  | setPath (id : NodeId) (elements : Path R)
  | setTransform (id : NodeId) (transform : Affine R)
  | setHidden (id : NodeId) (hidden : Bool)
  | setLocked (id : NodeId) (locked : Bool)
  | setStyle (id : NodeId) (style : Style R)
  | linkClone (clone source : NodeId)
  | unlinkClone (clone : NodeId)
  | setFillServer (owner server : NodeId)
  | setStrokeServer (owner server : NodeId)
  | requestUpdate (id : NodeId) (flags : Flags)

/-- Make the change. -/
def Edit.apply {R : Type} (e : Edit R) (s : Scene R) : Except SceneError (Scene R) :=
  match e with
  | setPath id elements => s.setPath id elements
  | setTransform id transform => s.setTransform id transform
  | setHidden id hidden => s.setHidden id hidden
  | setLocked id locked => s.setLocked id locked
  | setStyle id style => s.setStyle id style
  | linkClone clone source => s.linkClone clone source
  | unlinkClone clone => s.unlinkClone clone
  | setFillServer owner server => s.setFillServer owner server
  | setStrokeServer owner server => s.setStrokeServer owner server
  | requestUpdate id flags => s.requestUpdate id flags

/-- The node that is changed. -/
def Edit.subject {R : Type} : Edit R → NodeId
  | setPath id _ | setTransform id _ | setHidden id _ | setLocked id _ | setStyle id _ => id
  | linkClone clone _ | unlinkClone clone => clone
  | setFillServer owner _ | setStrokeServer owner _ => owner
  | requestUpdate id _ => id

/-- The aspects that the change makes stale. -/
def Edit.flags {R : Type} : Edit R → Flags
  | setPath _ _ | setTransform _ _ => .shape
  | setHidden _ _ => .visibility
  | setLocked _ _ | setStyle _ _ => .paint
  | linkClone _ _ | unlinkClone _ => Role.cloneSource.stale
  | setFillServer _ _ => Role.fillServer.stale
  | setStrokeServer _ _ => Role.strokeServer.stale
  | requestUpdate _ flags => flags

/-! ## Commands -/

/-- A command to a stage. -/
inductive Command (R ω : Type) where
  /-- Change a node. -/
  | edit (e : Edit R)
  /-- Add a node as the last child of a group. -/
  | addChild (parent : NodeId) (kind : Kind R)
  /-- Remove a node with its subtree. -/
  | remove (id : NodeId)
  /-- Bring the whole scene up to date. -/
  | settle
  /-- Run the update that is outstanding. -/
  | runPending
  /-- Take the damage. -/
  | takeDamage
  /-- Register an observer. -/
  | addObserver
  /-- Remove an observer. -/
  | removeObserver (o : ObserverId)
  /-- Change the state that the observers share. -/
  | record (f : ω → ω)

variable {R ω : Type} [Scalar R]

namespace Stage

/-- Carry out a command. -/
def perform (l : Listener R ω) (st : Stage R ω) : Command R ω → Stage R ω
  | .edit e =>
    match st.edit e.apply with
    | .ok st => st
    | .error _ => st
  | .addChild parent kind => (st.addChild l parent kind).2
  | .remove id =>
    match st.remove l id with
    | .ok st => st
    | .error _ => st
  | .settle => (settle l st).2
  | .runPending => (runPending l st).2
  | .takeDamage => { st with scene := st.scene.takeDamage.2 }
  | .addObserver => st.addObserver.2
  | .removeObserver o => (st.removeObserver o).2
  | .record f => { st with world := f st.world }

/-- Carry out commands one after the other. -/
def run (l : Listener R ω) (commands : List (Command R ω)) (st : Stage R ω) : Stage R ω :=
  commands.foldl (perform l) st

end Stage

/-! ## Observers -/

/-- Which commands observers give, and what they note down of freed nodes. -/
structure Conduct (R ω : Type) where
  /-- The commands of an observer that is told of a change. -/
  modified : ObserverId → NodeId → Flags → Stage R ω → List (Command R ω)
  /-- What an observer notes down of a freed node. -/
  released : ObserverId → NodeId → ω → ω
  /-- The commands of an observer that is told of a complete pass. -/
  completed : ObserverId → Stage R ω → List (Command R ω)

/-- Observers that give no commands. -/
def Conduct.silent : Conduct R ω where
  modified _ _ _ _ := []
  released _ _ w := w
  completed _ _ := []

/-- The observers that give these commands, with updates nested down to some depth. -/
def Conduct.listener (c : Conduct R ω) : (depth : Nat) → Listener R ω
  | 0 => { Listener.silent with released := c.released }
  | depth + 1 =>
    let l := c.listener depth
    { modified := fun o id flags st => Stage.run l (c.modified o id flags st) st
      released := c.released
      completed := fun o st => Stage.run l (c.completed o st) st }

/-- The scene of a stage after some run from a scene with a root only. -/
def Scene.Reachable (s : Scene R) : Prop :=
  ∃ (ω : Type) (c : Conduct R ω) (depth maxPasses : Nat) (w : ω) (commands : List (Command R ω)),
    s = (Stage.run (c.listener depth) commands (Stage.ofScene (Scene.new maxPasses) w)).scene

end Freehand
