import Freehand.Proofs.Scene.Exact
import Freehand.Proofs.Scene.Journal
import Mathlib.Logic.Function.Iterate

/-!
# What observers are told

A logged listener does what a listener does, and keeps a log of what its observers are told
(`Listener.logged`).  Where observers only record something, the log of the walk after a pass is
read off the scene before the walk: it lists the nodes with news, children before their parents, and
each node once for every observer (`Scene.tidings`, `Listener.Records.reports_notifySubtree`).  The
walk clears news and marks subscribers on its way, but in a tree it comes to no node again, and
marks are no news.
-/

namespace Freehand

open Scene

variable {R ω : Type}

/-- Something that an observer is told. -/
inductive Notice where
  /-- A node was recomputed. -/
  | modified (o : ObserverId) (id : NodeId) (flags : Flags)
  /-- A pass over the scene is complete. -/
  | completed (o : ObserverId)
  deriving DecidableEq, Repr

namespace Stage

/-- The stage with a log of what observers are told. -/
def withLog (st : Stage R ω) (log : List Notice) : Stage R (ω × List Notice) :=
  st.mapWorld fun w => (w, log)

/-- The stage without its log. -/
def unlogged (st : Stage R (ω × List Notice)) : Stage R ω :=
  st.mapWorld Prod.fst

/-- What observers were told. -/
def log (st : Stage R (ω × List Notice)) : List Notice :=
  st.world.2

end Stage

/-- What all observers are told of nodes that changed. -/
def Notice.ofTold (observers : List ObserverId) (told : List (NodeId × Flags)) : List Notice :=
  told.flatMap fun (id, flags) => observers.map fun o => .modified o id flags

/-- Observers that do the same, and log what they are told. -/
def Listener.logged (l : Listener R ω) : Listener R (ω × List Notice) where
  modified o id flags st :=
    (l.modified o id flags st.unlogged).withLog (st.log ++ [.modified o id flags])
  released o id w := (l.released o id w.1, w.2)
  completed o st := (l.completed o st.unlogged).withLog (st.log ++ [.completed o])

/-- The log changes nothing. -/
theorem Listener.projects_logged (l : Listener R ω) : l.logged.Projects Prod.fst l :=
  ⟨fun _ _ _ _ => rfl, fun _ _ _ => rfl, fun _ _ => rfl⟩

/-! ## Recording observers -/

/-- Observers change nothing but the state that they share. -/
structure Listener.Records (l : Listener R ω) : Prop where
  modified : ∀ o id flags st, ∃ w, l.modified o id flags st = { st with world := w }
  completed : ∀ o st, ∃ w, l.completed o st = { st with world := w }

theorem Stage.run_records [Scalar R] {l : Listener R ω} :
    ∀ {commands : List (Command R ω)} (st : Stage R ω),
      (∀ command ∈ commands, ∃ f, command = .record f) →
        ∃ w, run l commands st = { st with world := w } := by
  intro commands
  induction commands with
  | nil => exact fun st _ => ⟨st.world, rfl⟩
  | cons command commands ih =>
    intro st h
    obtain ⟨f, rfl⟩ := h command List.mem_cons_self
    exact ih { st with world := f st.world } fun d hd => h d (List.mem_cons_of_mem _ hd)

theorem Conduct.Records.records [Scalar R] {c : Conduct R ω} (hc : c.Records) :
    ∀ depth, (c.listener depth).Records := by
  intro depth
  cases depth with
  | zero => exact ⟨fun _ _ _ st => ⟨st.world, rfl⟩, fun _ st => ⟨st.world, rfl⟩⟩
  | succ depth =>
    exact ⟨fun o id flags st => Stage.run_records st (hc.modified o id flags st),
      fun o st => Stage.run_records st (hc.completed o st)⟩

/-! ## The log of the walk -/

namespace Stage

/-- Nothing but the state of the observers changes, and its log grows. -/
def Adds (new : List Notice) (st st' : Stage R (ω × List Notice)) : Prop :=
  ∃ w, st' = { st with world := w } ∧ w.2 = st.log ++ new

/-- Observers that note one thing each note them in their order. -/
theorem adds_foldl (notice : ObserverId → Notice)
    {tell : ObserverId → Stage R (ω × List Notice) → Stage R (ω × List Notice)}
    (h : ∀ o st, Adds [notice o] st (tell o st)) :
    ∀ (os : List ObserverId) (st : Stage R (ω × List Notice)),
      Adds (os.map notice) st (os.foldl (fun st o => tell o st) st) := by
  intro os
  induction os with
  | nil => exact fun st => ⟨st.world, rfl, (List.append_nil _).symm⟩
  | cons o os ih =>
    intro st
    obtain ⟨w, htell, hw⟩ := h o st
    obtain ⟨w', hfold, hw'⟩ := ih (tell o st)
    refine ⟨w', ?_, ?_⟩
    · rw [List.foldl_cons, hfold, htell]
    · rw [hw', htell]
      show w.2 ++ _ = _
      rw [hw, List.append_assoc]
      rfl

/-- Every observer is told once, in the order in which they were registered. -/
theorem adds_dispatch (notice : ObserverId → Notice)
    {tell : ObserverId → Stage R (ω × List Notice) → Stage R (ω × List Notice)}
    (h : ∀ o st, Adds [notice o] st (tell o st)) (st : Stage R (ω × List Notice)) :
    Adds (st.observers.map notice) st (dispatch st tell) := by
  obtain ⟨w, hfold, hw⟩ := adds_foldl notice h st.observers { st with observers := [] }
  refine ⟨w, ?_, hw⟩
  rw [dispatch, hfold, List.append_nil]

end Stage

namespace Listener.Records

open Stage

variable {l : Listener R ω}

theorem passive (hl : l.Records) : l.Passive where
  modified o id flags st := by
    obtain ⟨w, hw⟩ := hl.modified o id flags st
    rw [hw]
  completed o st := by
    obtain ⟨w, hw⟩ := hl.completed o st
    rw [hw]

theorem adds_modified (hl : l.Records) (id : NodeId) (flags : Flags) (o : ObserverId)
    (st : Stage R (ω × List Notice)) :
    Adds [.modified o id flags] st (l.logged.modified o id flags st) := by
  obtain ⟨w, hw⟩ := hl.modified o id flags st.unlogged
  refine ⟨(w, st.log ++ [.modified o id flags]), ?_, rfl⟩
  show (l.modified o id flags st.unlogged).withLog _ = _
  rw [hw]
  rfl

theorem adds_completed (hl : l.Records) (o : ObserverId) (st : Stage R (ω × List Notice)) :
    Adds [.completed o] st (l.logged.completed o st) := by
  obtain ⟨w, hw⟩ := hl.completed o st.unlogged
  refine ⟨(w, st.log ++ [.completed o]), ?_, rfl⟩
  show (l.completed o st.unlogged).withLog _ = _
  rw [hw]
  rfl

theorem logged (hl : l.Records) : l.logged.Records where
  modified o id flags st := (hl.adds_modified id flags o st).imp fun _ h => h.1
  completed o st := (hl.adds_completed o st).imp fun _ h => h.1

end Listener.Records

namespace Scene

/-- The nodes with news of at most `n` levels of a subtree, children first, and what is new. -/
def tidings (s : Scene R) : (n : Nat) → NodeId → List (NodeId × Flags)
  | 0, _ => []
  | n + 1, id =>
    match s.node? id with
    | none => []
    | some node =>
      if node.changed.isEmpty then []
      else node.children.flatMap (s.tidings n) ++ [(id, node.changed)]

end Scene

/-- What the walk after a pass reads of a node. -/
def Node.tiding (n : Node R) : Flags × List NodeId :=
  (n.changed, n.children)

/-- In the subtree of `id` the scene `t` has the news that `s` has. -/
def Scene.Untold (s t : Scene R) (id : NodeId) : Prop :=
  ∀ j, s.Above id j → (t.node? j).map Node.tiding = (s.node? j).map Node.tiding

/-- A part of the walk tells of `told`, and changes no news but in the subtrees of `ids`. -/
structure Stage.Reports (s : Scene R) (ids : List NodeId) (told : List (NodeId × Flags))
    (st st' : Stage R (ω × List Notice)) : Prop where
  observers : st'.observers = st.observers
  log : st'.log = st.log ++ Notice.ofTold st.observers told
  apart : ∀ j, (∀ id ∈ ids, ¬s.Above id j) →
    (st'.scene.node? j).map Node.tiding = (st.scene.node? j).map Node.tiding

theorem Scene.Untold.hush {s t : Scene R} {id c : NodeId} (h : s.Untold t id) (hs : s.Tree)
    (hc : s.parent? c = some id) : s.Untold (t.hush id) c := fun j hj => by
  have hne : j ≠ id := fun heq => hs.grounded.not_above_parent hc (heq ▸ hj)
  rw [Scene.hush, node?_modify_of_ne t _ hne,
    h j ((Above.of_parent? hc (.refl s id)).trans hj)]

namespace Stage.Reports

variable {s : Scene R} {id p c : NodeId} {n : Node R} {ids ids' : List NodeId}
  {told told' : List (NodeId × Flags)} {st st' st'' : Stage R (ω × List Notice)}

theorem nil (s : Scene R) (ids : List NodeId) (st : Stage R (ω × List Notice)) :
    Reports s ids [] st st :=
  ⟨rfl, (List.append_nil _).symm, fun _ _ => rfl⟩

theorem append (h : Reports s ids told st st') (h' : Reports s ids' told' st' st'') :
    Reports s (ids ++ ids') (told ++ told') st st'' where
  observers := h'.observers.trans h.observers
  log := by
    rw [h'.log, h.log, h.observers, Notice.ofTold, Notice.ofTold, Notice.ofTold,
      List.flatMap_append, List.append_assoc]
  apart j hj := by
    rw [h'.apart j fun id hid => hj id (List.mem_append_right ids hid),
      h.apart j fun id hid => hj id (List.mem_append_left ids' hid)]

theorem mono (h : Reports s ids told st st')
    (hids : ∀ j, (∀ id ∈ ids', ¬s.Above id j) → ∀ id ∈ ids, ¬s.Above id j) :
    Reports s ids' told st st' :=
  ⟨h.observers, h.log, fun j hj => h.apart j (hids j hj)⟩

/-- Telling one child leaves the news in the subtrees of its siblings. -/
theorem untold (h : Reports s [c] told st st') (hs : s.Tree) {d : NodeId}
    (hc : s.parent? c = some p) (hd : s.parent? d = some p) (hne : c ≠ d)
    (hd' : s.Untold st.scene d) : s.Untold st'.scene d := fun j hj => by
  rw [h.apart j fun e he hup => ?_, hd' j hj]
  exact hs.not_above_sibling hc hd hne (List.mem_singleton.1 he ▸ hup) hj

/-- Children are told one after the other, each from the news in its own subtree. -/
theorem foldl (hs : s.Tree)
    {f : Stage R (ω × List Notice) → NodeId → Stage R (ω × List Notice)}
    {tell : NodeId → List (NodeId × Flags)}
    (hf : ∀ c st, s.Untold st.scene c → Reports s [c] (tell c) st (f st c)) :
    ∀ (cs : List NodeId) (st : Stage R (ω × List Notice)), cs.Nodup →
      (∀ c ∈ cs, s.parent? c = some p) → (∀ c ∈ cs, s.Untold st.scene c) →
        Reports s cs (cs.flatMap tell) st (cs.foldl f st) := by
  intro cs
  induction cs with
  | nil => exact fun st _ _ _ => .nil s [] st
  | cons c cs ih =>
    intro st hnodup hparent huntold
    obtain ⟨hnot, hnodup'⟩ := List.nodup_cons.1 hnodup
    have hfirst := hf c st (huntold c List.mem_cons_self)
    refine hfirst.append (ih (f st c) hnodup'
      (fun d hd => hparent d (List.mem_cons_of_mem c hd)) fun d hd => ?_)
    exact hfirst.untold hs (hparent c List.mem_cons_self)
      (hparent d (List.mem_cons_of_mem c hd)) (fun heq => hnot (heq ▸ hd))
      (huntold d (List.mem_cons_of_mem c hd))

end Stage.Reports

namespace Listener.Records

open Stage

variable {l : Listener R ω} {s : Scene R}

/-- Telling one node leaves all news. -/
theorem reports_notify (hl : l.Records) (s : Scene R) {id : NodeId} {n : Node R}
    {st : Stage R (ω × List Notice)} (hn : st.scene.node? id = some n) (flags : Flags) :
    Reports s [] [(id, flags)] st (notify l.logged st id flags) := by
  rw [notify, hn]
  dsimp only
  generalize hscene : n.subscribers.foldl (fun s k => s.touch k.node k.role.stale) st.scene = t
  have hagree : Agree Node.tiding st.scene t := by
    have htouch : ∀ (s : Scene R) (k : Link), Agree Node.tiding s (s.touch k.node k.role.stale) :=
      fun s k => agree_touch (fun _ _ => rfl) s k.node k.role.stale
    rw [← hscene]
    exact .foldl htouch n.subscribers st.scene
  obtain ⟨w, heq, hw⟩ := adds_dispatch (fun o => .modified o id flags)
    (hl.adds_modified id flags) { st with scene := t }
  rw [heq]
  exact ⟨rfl, by rw [Notice.ofTold, List.flatMap_singleton]; exact hw, fun j _ => hagree j⟩

/-- The walk over a subtree tells of the news that it finds there. -/
theorem reports_notifySubtree (hl : l.Records) (hs : s.Tree) :
    ∀ (levels : Nat) (id : NodeId) (st : Stage R (ω × List Notice)), s.Untold st.scene id →
      Reports s [id] (s.tidings levels id) st (notifySubtree l.logged levels id st) := by
  intro levels
  induction levels with
  | zero => exact fun id st _ => .nil s [id] st
  | succ levels ih =>
    intro id st huntold
    have hid := huntold id (.refl s id)
    rw [notifySubtree, tidings]
    cases hn : s.node? id with
    | none =>
      rw [hn, Option.map_none, Option.map_eq_none_iff] at hid
      rw [hid]
      exact .nil s [id] st
    | some n =>
      rw [hn] at hid
      obtain ⟨n', hn', htiding⟩ := Option.map_eq_some_iff.1 hid
      obtain ⟨hchanged, hchildren⟩ := Prod.mk.inj htiding
      rw [hn']
      dsimp only
      rw [hchanged, hchildren]
      split
      · exact .nil s [id] st
      · have hparent : ∀ c ∈ n.children, s.parent? c = some id := fun c hc =>
          (hs.mem_children_iff hn).1 hc
        have hself : ∀ c ∈ n.children, ¬s.Above c id := fun c hc =>
          hs.grounded.not_above_parent (hparent c hc)
        -- the news of the node are cleared first, then its children are told, then the node
        have hhush : Reports s [id] [] st { st with scene := st.scene.hush id } :=
          ⟨rfl, (List.append_nil _).symm, fun j hj => congrArg _ (node?_modify_of_ne st.scene _
            fun heq => hj id List.mem_cons_self (heq ▸ .refl s id))⟩
        have hwalk := Reports.foldl hs (fun c st => ih c st) n.children
          { st with scene := st.scene.hush id } (hs.nodup_children hn) hparent
          fun c hc => huntold.hush hs (hparent c hc)
        obtain ⟨m, hm, -⟩ : ∃ m, (n.children.foldl (fun st c => notifySubtree l.logged levels c st)
            { st with scene := st.scene.hush id }).scene.node? id = some m ∧
            m.tiding = (∅, n'.children) := by
          rw [← Option.map_eq_some_iff, hwalk.apart id hself, hush, node?_modify_self, hn']
          rfl
        refine (hhush.append (hwalk.append (hl.reports_notify s hm n.changed))).mono ?_
        intro j hj d hd hup
        refine hj id List.mem_cons_self ?_
        rw [List.append_nil] at hd
        rcases List.mem_cons.1 hd with rfl | hd
        · exact hup
        · exact (Above.of_parent? (hparent d hd) (.refl s id)).trans hup

end Listener.Records

/-! ## The log of a pass -/

variable [Scalar R]

/-- The nodes that the walk after a pass over a scene tells of, and what is new. -/
def Scene.told (s : Scene R) : List (NodeId × Flags) :=
  s.updatePass.tidings s.updatePass.nodes.slots.size s.updatePass.root

namespace Listener.Records

open Stage

variable {l : Listener R ω}

/-- A pass tells of the nodes with news, and then that it is complete. -/
theorem log_pass (hl : l.Records) {st : Stage R (ω × List Notice)} (hs : st.scene.Sound) :
    (pass l.logged st).observers = st.observers ∧
    (pass l.logged st).log = st.log ++
      (Notice.ofTold st.observers st.scene.told ++ st.observers.map .completed) := by
  have hwalk := hl.reports_notifySubtree hs.updatePass.tree st.scene.updatePass.nodes.slots.size
    st.scene.updatePass.root { st with scene := st.scene.updatePass } fun _ _ => rfl
  obtain ⟨w, hdone, hw⟩ := adds_dispatch .completed hl.adds_completed
    (notifyPass l.logged { st with scene := st.scene.updatePass })
  have hpass : (pass l.logged st).world = w ∧ (pass l.logged st).observers =
      (notifyPass l.logged { st with scene := st.scene.updatePass }).observers := by
    simp only [Stage.pass, hdone, and_self]
  refine ⟨hpass.2.trans hwalk.observers, ?_⟩
  show (pass l.logged st).world.2 = _
  rw [hpass.1, hw, ← List.append_assoc]
  exact congrArg₂ (· ++ ·) hwalk.log (congrArg _ hwalk.observers)

end Listener.Records

/-! ## The passes of an update -/

/-- An update of the stage makes `k` passes. -/
structure Stage.Iterates (l : Listener R ω) (st : Stage R ω) (k : Nat) : Prop where
  within : k ≤ st.scene.maxPasses
  /-- Each of them is made because the root is dirty. -/
  dirty : ∀ i < k, ((pass l)^[i] st).scene.isDirty = true
  /-- They end when the root is clean, or when there are no more. -/
  ends : k = st.scene.maxPasses ∨ ((pass l)^[k] st).scene.isDirty = false
  settled : settleWithin l st.scene.maxPasses st =
    (!((pass l)^[k] st).scene.isDirty, (pass l)^[k] st)

namespace Stage

/-- An update is some number of passes: each but the last left the root dirty, and it ended there or
at the limit. -/
theorem exists_settleWithin (l : Listener R ω) : ∀ (limit : Nat) (st : Stage R ω), ∃ k ≤ limit,
    (∀ i < k, ((pass l)^[i] st).scene.isDirty = true) ∧
    (k = limit ∨ ((pass l)^[k] st).scene.isDirty = false) ∧
    settleWithin l limit st = (!((pass l)^[k] st).scene.isDirty, (pass l)^[k] st) := by
  intro limit st
  fun_induction settleWithin l limit st with
  | case1 st hdirty =>
    refine ⟨0, Nat.le_refl _, fun i hi => absurd hi (Nat.not_lt_zero i), .inl rfl, ?_⟩
    rw [Function.iterate_zero_apply, hdirty, Bool.not_true]
  | case2 st hdirty limit ih =>
    obtain ⟨k, hk, hall, hends, hsettled⟩ := ih
    refine ⟨k + 1, Nat.succ_le_succ hk, fun i hi => ?_, hends.imp_left (congrArg (· + 1)),
      hsettled⟩
    cases i with
    | zero => exact hdirty
    | succ i => exact hall i (Nat.lt_of_succ_lt_succ hi)
  | case3 limit st hclean =>
    rw [Bool.not_eq_true] at hclean
    refine ⟨0, Nat.zero_le _, fun i hi => absurd hi (Nat.not_lt_zero i), .inr hclean, ?_⟩
    rw [Function.iterate_zero_apply, hclean, Bool.not_false]

theorem exists_iterates (l : Listener R ω) (st : Stage R ω) : ∃ k, Iterates l st k := by
  obtain ⟨k, hk, hdirty, hends, hsettled⟩ := exists_settleWithin l st.scene.maxPasses st
  exact ⟨k, hk, hdirty, hends, hsettled⟩

end Stage

end Freehand
