import Freehand.Proofs.Scene.Run

/-!
# Journals

A noted run carries out commands as a run does, and keeps a journal of them in the state that the
observers share: of every command, those of observers included, what the scene was when it began,
what it was when it ended, and how an update went.  Commands that an observer gives during an update
stand between the beginning and the end of that update.

Keeping the journal changes nothing: without it, a noted run is the run (`Conduct.run_noted`).
Observers do not see the journal, and a projection of the shared state that what observers do
respects is respected by all that is built from it (`Listener.Projects`).
-/

namespace Freehand

open Scene

variable {R ω ω' : Type} [Scalar R]

/-- What a journal notes of a command. -/
inductive Entry (R ω : Type) where
  /-- The command is about to be carried out. -/
  | began (command : Command R ω) (scene : Scene R)
  /-- The command was carried out.  If it was an update, `answer` says how that went. -/
  | ended (command : Command R ω) (before after : Scene R)
      (answer : Option (Except UpdateError Unit))

namespace Entry

/-- The scene when the entry was noted. -/
def scene : Entry R ω → Scene R
  | began _ s => s
  | ended _ _ after _ => after

/-- How the update went that ended with the entry. -/
def answer? : Entry R ω → Option (Except UpdateError Unit)
  | began _ _ => none
  | ended _ _ _ answer => answer

end Entry

/-- The entries of a run, in the order in which they were noted. -/
abbrev Journal (R ω : Type) := List (Entry R ω)

/-- The command for observers whose shared state holds a journal. -/
def Command.noted : Command R ω → Command R (ω × Journal R ω)
  | .edit e => .edit e
  | .addChild parent kind => .addChild parent kind
  | .remove id => .remove id
  | .settle => .settle
  | .runPending => .runPending
  | .takeDamage => .takeDamage
  | .addObserver => .addObserver
  | .removeObserver o => .removeObserver o
  | .record f => .record fun w => (f w.1, w.2)

namespace Stage

/-- The stage with another state of the observers. -/
def mapWorld (f : ω' → ω) (st : Stage R ω') : Stage R ω :=
  ⟨st.scene, st.observers, st.registered, f st.world⟩

/-- The stage without its journal. -/
def bare (st : Stage R (ω × Journal R ω)) : Stage R ω :=
  st.mapWorld Prod.fst

/-- The stage with one more entry in its journal. -/
def write (st : Stage R (ω × Journal R ω)) (e : Entry R ω) : Stage R (ω × Journal R ω) :=
  { st with world := (st.world.1, st.world.2 ++ [e]) }

/-- What a command answers that lets the scene settle. -/
def answer? (l : Listener R ω) (st : Stage R ω) {ω' : Type} :
    Command R ω' → Option (Except UpdateError Unit)
  | .settle => some (settle l st).1
  | .runPending => if st.scene.pending.isSome then some (settle l st).1 else none
  | _ => none

/-- Carry out a command and note it. -/
def note (l : Listener R (ω × Journal R ω)) (st : Stage R (ω × Journal R ω))
    (command : Command R ω) : Stage R (ω × Journal R ω) :=
  let begun := st.write (.began command st.scene)
  let done := perform l begun command.noted
  done.write (.ended command st.scene done.scene (answer? l begun command))

/-- Carry out commands one after the other and note them. -/
def runNoted (l : Listener R (ω × Journal R ω)) (commands : List (Command R ω))
    (st : Stage R (ω × Journal R ω)) : Stage R (ω × Journal R ω) :=
  commands.foldl (note l) st

end Stage

/-- The observers that give these commands and note them, with updates nested down to some depth. -/
def Conduct.noted (c : Conduct R ω) : (depth : Nat) → Listener R (ω × Journal R ω)
  | 0 => { Listener.silent with released := fun o id w => (c.released o id w.1, w.2) }
  | depth + 1 =>
    let l := c.noted depth
    { modified := fun o id flags st => Stage.runNoted l (c.modified o id flags st.bare) st
      released := fun o id w => (c.released o id w.1, w.2)
      completed := fun o st => Stage.runNoted l (c.completed o st.bare) st }

/-! ## Runs without their journal -/

/-- What the observers of `l'` do is what those of `l` do, seen through `f`. -/
structure Listener.Projects (f : ω' → ω) (l' : Listener R ω') (l : Listener R ω) : Prop where
  modified : ∀ o id flags st,
    (l'.modified o id flags st).mapWorld f = l.modified o id flags (st.mapWorld f)
  released : ∀ o id w, f (l'.released o id w) = l.released o id (f w)
  completed : ∀ o st, (l'.completed o st).mapWorld f = l.completed o (st.mapWorld f)

namespace Listener.Projects

open Stage

variable {f : ω' → ω} {l' : Listener R ω'} {l : Listener R ω}

omit [Scalar R] in
/-- What each observer does alike, all of them do. -/
theorem mapWorld_dispatch {tell' : ObserverId → Stage R ω' → Stage R ω'}
    {tell : ObserverId → Stage R ω → Stage R ω}
    (h : ∀ o st, (tell' o st).mapWorld f = tell o (st.mapWorld f)) (st : Stage R ω') :
    (dispatch st tell').mapWorld f = dispatch (st.mapWorld f) tell := by
  have hfold :
      (st.observers.foldl (fun st o => tell' o st) { st with observers := [] }).mapWorld f =
        st.observers.foldl (fun st o => tell o st) (mapWorld f { st with observers := [] }) :=
    (List.foldl_hom (mapWorld f) fun st o => (h o st).symm).symm
  have hobservers := congrArg Stage.observers hfold
  show (⟨_, _ ++ _, _, _⟩ : Stage R ω) = ⟨_, _ ++ _, _, _⟩
  rw [Stage.mk.injEq]
  exact ⟨congrArg Stage.scene hfold, congrArg (st.observers ++ ·) hobservers,
    congrArg Stage.registered hfold, congrArg Stage.world hfold⟩

omit [Scalar R] in
theorem mapWorld_announce (h : l'.Projects f l) (st : Stage R ω') (freed : List NodeId) :
    (announce l' st freed).mapWorld f = announce l (st.mapWorld f) freed := by
  have htell : ∀ (w : ω') (id : NodeId),
      st.observers.foldl (fun w o => l.released o id w) (f w) =
        f (st.observers.foldl (fun w o => l'.released o id w) w) :=
    fun w id => List.foldl_hom f fun w o => (h.released o id w).symm
  rw [Stage.mapWorld, Stage.mk.injEq]
  exact ⟨rfl, rfl, rfl, (List.foldl_hom f htell).symm⟩

omit [Scalar R] in
theorem mapWorld_notify (h : l'.Projects f l) (st : Stage R ω') (id : NodeId) (flags : Flags) :
    (notify l' st id flags).mapWorld f = notify l (st.mapWorld f) id flags := by
  simp only [notify, mapWorld]
  cases st.scene.node? id with
  | none => rfl
  | some n => exact mapWorld_dispatch (fun o st => h.modified o id flags st) _

omit [Scalar R] in
/-- What observers note down makes no difference when a subtree is told. -/
theorem mapWorld_notifySubtree (h : l'.Projects f l) :
    ∀ (levels : Nat) (id : NodeId) (st : Stage R ω'),
      (notifySubtree l' levels id st).mapWorld f = notifySubtree l levels id (st.mapWorld f) := by
  intro levels
  induction levels with
  | zero => exact fun _ _ => rfl
  | succ levels ih =>
    intro id st
    simp only [notifySubtree, mapWorld]
    cases st.scene.node? id with
    | none => rfl
    | some n =>
      dsimp only
      split
      · rfl
      · refine (mapWorld_notify h _ id n.changed).trans
          (congrArg (notify l · id n.changed) (List.foldl_hom (mapWorld f) ?_).symm)
        exact fun st c => (ih c st).symm

/-- A pass is the same whatever the observers note down. -/
theorem mapWorld_pass (h : l'.Projects f l) (st : Stage R ω') :
    (pass l' st).mapWorld f = pass l (st.mapWorld f) := by
  have hwalk := h.mapWorld_notifySubtree st.scene.updatePass.nodes.slots.size
    st.scene.updatePass.root { st with scene := st.scene.updatePass }
  have hdone := (mapWorld_dispatch h.completed
    (notifyPass l' { st with scene := st.scene.updatePass })).trans
      (congrArg (fun st => dispatch st l.completed) hwalk)
  exact congrArg (fun st : Stage R ω =>
    { st with scene.stats.passes := st.scene.stats.passes + 1 }) hdone

/-- It makes no difference to the passes of an update, nor to their number. -/
theorem mapWorld_settleWithin (h : l'.Projects f l) :
    ∀ (limit : Nat) (st : Stage R ω'),
      (settleWithin l' limit st).1 = (settleWithin l limit (st.mapWorld f)).1 ∧
      (settleWithin l' limit st).2.mapWorld f = (settleWithin l limit (st.mapWorld f)).2 := by
  intro limit st
  fun_induction settleWithin l' limit st with
  | case1 st hdirty =>
    have hdirty' : (st.mapWorld f).scene.isDirty = true := hdirty
    rw [settleWithin, if_pos hdirty']
    exact ⟨rfl, rfl⟩
  | case2 st hdirty limit ih =>
    have hdirty' : (st.mapWorld f).scene.isDirty = true := hdirty
    rw [settleWithin_dirty hdirty', ← h.mapWorld_pass]
    exact ih
  | case3 limit st hclean =>
    have hclean' : (st.mapWorld f).scene.isDirty ≠ true := hclean
    rw [settleWithin_clean hclean']
    exact ⟨rfl, rfl⟩

theorem mapWorld_settle (h : l'.Projects f l) (st : Stage R ω') :
    (settle l' st).1 = (settle l (st.mapWorld f)).1 ∧
    (settle l' st).2.mapWorld f = (settle l (st.mapWorld f)).2 := by
  obtain ⟨hsettled, hst⟩ := h.mapWorld_settleWithin st.scene.maxPasses st
  have hlimit : (st.mapWorld f).scene.maxPasses = st.scene.maxPasses := rfl
  simp only [settle, hlimit, ← hsettled, ← hst]
  split <;> exact ⟨rfl, rfl⟩

theorem mapWorld_runPending (h : l'.Projects f l) (st : Stage R ω') :
    (runPending l' st).2.mapWorld f = (runPending l (st.mapWorld f)).2 := by
  have hpending : (st.mapWorld f).scene.pending = st.scene.pending := rfl
  simp only [runPending, hpending]
  split
  · rfl
  · exact (h.mapWorld_settle st).2

end Listener.Projects

namespace Stage

variable {l' : Listener R (ω × Journal R ω)} {l : Listener R ω}

/-- Without the journal, a noted command does what the command does. -/
theorem bare_perform (h : l'.Projects Prod.fst l) (st : Stage R (ω × Journal R ω))
    (command : Command R ω) : (perform l' st command.noted).bare = perform l st.bare command := by
  cases command with
  | edit e =>
    simp only [perform, Command.noted, edit, bare, mapWorld]
    cases e.apply st.scene <;> rfl
  | addChild parent kind => exact h.mapWorld_announce _ _
  | remove id =>
    simp only [perform, Command.noted, remove, bare, mapWorld]
    cases st.scene.remove id with
    | error e => rfl
    | ok result => exact h.mapWorld_announce _ _
  | settle => exact (h.mapWorld_settle st).2
  | runPending => exact h.mapWorld_runPending st
  | takeDamage | addObserver | removeObserver _ | record _ => rfl

theorem bare_runNoted (h : l'.Projects Prod.fst l) :
    ∀ (commands : List (Command R ω)) (st : Stage R (ω × Journal R ω)),
      (runNoted l' commands st).bare = run l commands st.bare :=
  fun _ _ => .symm <| List.foldl_hom bare fun st command =>
    .symm <| bare_perform h (st.write (.began command st.scene)) command

end Stage

/-- A conduct gives the same commands with the journal beside it. -/
theorem Conduct.projects_noted (c : Conduct R ω) :
    ∀ depth, (c.noted depth).Projects Prod.fst (c.listener depth) := by
  intro depth
  induction depth with
  | zero => exact ⟨fun _ _ _ _ => rfl, fun _ _ _ => rfl, fun _ _ => rfl⟩
  | succ depth ih =>
    exact ⟨fun o id flags st => Stage.bare_runNoted ih (c.modified o id flags st.bare) st,
      fun _ _ _ => rfl, fun o st => Stage.bare_runNoted ih (c.completed o st.bare) st⟩

/-- Without its journal, a noted run is the run. -/
theorem Conduct.run_noted (c : Conduct R ω) (depth : Nat) (commands : List (Command R ω))
    (st : Stage R (ω × Journal R ω)) :
    (Stage.runNoted (c.noted depth) commands st).bare =
      Stage.run (c.listener depth) commands st.bare :=
  Stage.bare_runNoted (c.projects_noted depth) commands st

end Freehand
