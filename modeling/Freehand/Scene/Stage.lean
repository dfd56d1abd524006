import Freehand.Scene.Update

/-!
# Observed scenes

A stage is a scene with observers.  What the observers do is given by a listener, which may change
the stage and has a state of its own.

* After a pass the nodes that changed are told to the observers, children before their parents.
  Nodes that reference a changed node are marked stale first.
* An observer may change the scene while it is told.  An update goes on until the root is clean, or
  is given up after a number of passes; the marks then stay for the next update.
* While observers are told something they are off the stage: an update that one of them asks for
  reaches only those registered since, and none of them can be removed.
* Observers are told of a freed node, but cannot reach the scene then.

The walk over the changed nodes is bounded by the number of slots, as no branch is longer.
-/

namespace Freehand

/-- The number of an observer. -/
abbrev ObserverId := Nat

/-- A scene with observers, and the state that the observers share. -/
structure Stage (R ω : Type) where
  /-- The scene. -/
  scene : Scene R
  /-- The observers in the order in which they are told. -/
  observers : List ObserverId
  /-- The number of observers registered so far. -/
  registered : Nat
  /-- The state that the observers share. -/
  world : ω

/-- What observers do. -/
structure Listener (R ω : Type) where
  /-- A node was recomputed. -/
  modified : ObserverId → NodeId → Flags → Stage R ω → Stage R ω
  /-- A node is about to be freed. -/
  released : ObserverId → NodeId → ω → ω
  /-- A pass over the scene is complete. -/
  completed : ObserverId → Stage R ω → Stage R ω

/-- Why an update was given up. -/
inductive UpdateError where
  /-- The scene was still dirty after the given number of passes. -/
  | noConvergence (passes : Nat)
  deriving DecidableEq, Repr

/-- What is wrong, in words. -/
def UpdateError.message : UpdateError → String
  | noConvergence n => s!"Scene did not settle after {n} update iterations"

namespace Listener

/-- Observers that do nothing. -/
def silent {R ω : Type} : Listener R ω where
  modified _ _ _ st := st
  released _ _ w := w
  completed _ st := st

end Listener

namespace Stage

variable {R ω : Type}

/-! ## Observers -/

/-- A stage without observers. -/
def ofScene (scene : Scene R) (world : ω) : Stage R ω :=
  ⟨scene, [], 0, world⟩

/-- Register an observer. -/
def addObserver (st : Stage R ω) : ObserverId × Stage R ω :=
  (st.registered,
   { st with observers := st.observers ++ [st.registered], registered := st.registered + 1 })

/-- Remove an observer.  Says whether it was there. -/
def removeObserver (st : Stage R ω) (o : ObserverId) : Bool × Stage R ω :=
  (st.observers.contains o, { st with observers := st.observers.filter fun p => p ≠ o })

/-- Tell all observers something, off the stage. -/
def dispatch (st : Stage R ω) (tell : ObserverId → Stage R ω → Stage R ω) : Stage R ω :=
  let told := st.observers
  let after := told.foldl (fun st o => tell o st) { st with observers := [] }
  { after with observers := told ++ after.observers }

/-- Tell all observers that nodes were freed. -/
def announce (l : Listener R ω) (st : Stage R ω) (freed : List NodeId) : Stage R ω :=
  { st with world :=
      freed.foldl (fun w id => st.observers.foldl (fun w o => l.released o id w) w) st.world }

/-! ## Changes -/

/-- Change the scene alone. -/
def edit (st : Stage R ω) (f : Scene R → Except SceneError (Scene R)) :
    Except SceneError (Stage R ω) :=
  (f st.scene).map fun scene => { st with scene }

variable [Scalar R]

/-- Remove a node with its subtree. -/
def remove (l : Listener R ω) (st : Stage R ω) (id : NodeId) : Except SceneError (Stage R ω) :=
  (st.scene.remove id).map fun (scene, freed) => announce l { st with scene } freed

/-- Add a node as the last child of a group. -/
def addChild (l : Listener R ω) (st : Stage R ω) (parent : NodeId) (kind : Kind R) :
    Except SceneError NodeId × Stage R ω :=
  let a := st.scene.addChild parent kind
  (a.result, announce l { st with scene := a.scene } a.freed)

/-! ## Telling what changed -/

omit [Scalar R] in
/-- Mark the subscribers of a node stale, and tell the observers that it changed. -/
def notify (l : Listener R ω) (st : Stage R ω) (id : NodeId) (flags : Flags) : Stage R ω :=
  match st.scene.node? id with
  | none => st
  | some n =>
    let scene := n.subscribers.foldl (fun s k => s.touch k.node k.role.stale) st.scene
    dispatch { st with scene } fun o => l.modified o id flags

omit [Scalar R] in
/-- Tell what changed in a subtree of at most `n` levels. -/
def notifySubtree (l : Listener R ω) : (n : Nat) → NodeId → Stage R ω → Stage R ω
  | 0, _, st => st
  | n + 1, id, st =>
    match st.scene.node? id with
    | none => st
    | some node =>
      if node.changed.isEmpty then
        st
      else
        let st := { st with scene := st.scene.modify id fun n => { n with changed := ∅ } }
        let st := node.children.foldl (fun st c => notifySubtree l n c st) st
        notify l st id node.changed

omit [Scalar R] in
/-- Tell what changed in the whole scene. -/
def notifyPass (l : Listener R ω) (st : Stage R ω) : Stage R ω :=
  notifySubtree l st.scene.nodes.slots.size st.scene.root st

/-! ## Updates -/

/-- One pass: recompute, tell what changed, and tell that the pass is complete. -/
def pass (l : Listener R ω) (st : Stage R ω) : Stage R ω :=
  let st := notifyPass l { st with scene := st.scene.updatePass }
  let st := dispatch st l.completed
  { st with scene.stats.passes := st.scene.stats.passes + 1 }

/-- Let passes run until the root is clean, or until `n` of them were not enough. -/
def settleWithin (l : Listener R ω) : (n : Nat) → Stage R ω → Bool × Stage R ω
  | n, st =>
    if st.scene.isDirty then
      match n with
      | 0 => (false, st)
      | n + 1 => settleWithin l n (pass l st)
    else
      (true, st)

/-- Bring the whole scene up to date, or give up after the number of passes that it allows. -/
def settle (l : Listener R ω) (st : Stage R ω) : Except UpdateError Unit × Stage R ω :=
  let limit := st.scene.maxPasses
  let (settled, st) := settleWithin l limit st
  let st := { st with scene.pending := none }
  if settled then
    (.ok (), st)
  else
    (.error (.noConvergence limit), { st with scene.stats.aborted := st.scene.stats.aborted + 1 })

/-- Run the update that is outstanding.  Says whether there was one. -/
def runPending (l : Listener R ω) (st : Stage R ω) : Except UpdateError Bool × Stage R ω :=
  if st.scene.pending.isNone then
    (.ok false, st)
  else
    let (r, st) := settle l st
    (r.map fun _ => true, st)

end Stage

end Freehand
