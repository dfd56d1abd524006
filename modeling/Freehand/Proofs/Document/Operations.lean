import Freehand.Document.Run
import Freehand.Proofs.Scene.Run

/-!
# Operations on documents

A document is *reachable* if operations lead to it from a new one: commands to its scene, whatever
its observers do then, the choice of a layer, and the calls of tools.

Every operation is a run of commands to the scene (`Document.exists_run`).  A call that creates a
path, say, gives three: the path is added, and its style and its placement are set.  So what holds
of reachable scenes holds of the scenes of reachable documents (`Document.Reachable.scene`).
-/

namespace Freehand

open Scene

variable {R ω : Type}

theorem Except.eq_ok_of_mapError {ε ε' α : Type} {x : Except ε α} {f : ε → ε'} {a : α}
    (h : x.mapError f = .ok a) : x = .ok a := by
  cases x with
  | error e => cases h
  | ok b =>
    cases h
    rfl

/-! ## Operations -/

namespace Document

variable {d d' : Document R ω} {layer : LayerHandle} {node : NodeHandle} {mode : StrokeMode}
  {elements : Path R}

/-- Choosing a layer does nothing to the scene. -/
theorem stage_setCurrent {current : Option NodeId} (h : d.setCurrent current = .ok d') :
    d'.stage = d.stage := by
  cases current with
  | none =>
    cases h
    rfl
  | some id =>
    rw [setCurrent] at h
    split at h
    · cases h
    · split at h
      · cases h
        rfl
      · cases h

/-- Setting the elements of a path is one edit. -/
theorem exists_of_setPathData (h : d.setPathData node elements = .ok d') :
    ∃ s, d.scene.setPath node.id elements = .ok s ∧ d' = d.withScene s := by
  have hset : ∀ {id : NodeId}, (do
      let scene ← (d.scene.setPath id elements).mapError DocumentError.ofScene
      return d.withScene scene) = Except.ok d' →
        ∃ s, d.scene.setPath id elements = .ok s ∧ d' = d.withScene s := by
    intro id h
    obtain ⟨s, hs, h⟩ := exists_of_bind_eq_ok h
    cases h
    exact ⟨s, Except.eq_ok_of_mapError hs, rfl⟩
  obtain ⟨id, hid, h⟩ := exists_of_bind_eq_ok h
  rw [resolveNode] at hid
  split at hid
  · cases hid
    split at h
    · exact hset h
    · exact hset h
    · cases h
  · cases hid

theorem exists_of_resolveLayer {id : NodeId} (h : d.resolveLayer layer = .ok id) :
    id = layer.id := by
  rw [resolveLayer] at h
  split at h
  · cases h
    rfl
  · cases h

variable [Scalar R]

/-- Creating a path adds it to the layer with a style and a placement. -/
theorem exists_of_createPathNode (h : d.createPathNode layer mode = .ok (node, d')) :
    ∃ m id s, addPath d.scene layer.id (styleOf mode) m = .ok (id, s) ∧ node = id.toNode ∧
      d' = d.withScene s := by
  rw [createPathNode] at h
  obtain ⟨id, hid, h⟩ := exists_of_bind_eq_ok h
  obtain rfl := exists_of_resolveLayer hid
  dsimp only at h
  split at h
  · cases h
  · obtain ⟨placement, -, h⟩ := exists_of_bind_eq_ok h
    split at h
    · cases h
    · obtain ⟨⟨id, s⟩, hadd, h⟩ := exists_of_bind_eq_ok h
      cases h
      exact ⟨placement.inverse, id, s, Except.eq_ok_of_mapError hadd, rfl, rfl⟩

/-- A path is added below a group, and then its style and its placement are set. -/
theorem exists_of_addPath {s s' : Scene R} {host id : NodeId} {style : Style R} {m : Affine R}
    (h : addPath s host style m = .ok (id, s')) :
    ∃ n t, s.node? host = some n ∧ n.kind.isGroup = true ∧ id = s.nextId host (.path []) ∧
      (s.insertChild host (.path [])).2.setStyle id style = .ok t ∧
      t.setTransform id m = .ok s' := by
  obtain ⟨id', hid, h⟩ := exists_of_bind_eq_ok h
  obtain ⟨t, ht, h⟩ := exists_of_bind_eq_ok h
  obtain ⟨u, hu, h⟩ := exists_of_bind_eq_ok h
  cases h
  rw [addChild] at hid ht
  cases hn : s.node? host with
  | none =>
    rw [hn] at hid
    cases hid
  | some n =>
    rw [hn] at hid ht
    dsimp only at hid ht
    split at hid
    next hgroup =>
      rw [if_pos hgroup] at ht
      cases hid
      exact ⟨n, t, rfl, hgroup, rfl, ht, hu⟩
    next => cases hid

end Document

/-! ## Operations as commands -/

variable [Scalar R]

theorem Scene.addChild_path {s : Scene R} {host : NodeId} {n : Node R}
    (hn : s.node? host = some n) (hgroup : n.kind.isGroup = true) :
    s.addChild host (.path []) =
      ⟨.ok (s.nextId host (.path [])), (s.insertChild host (.path [])).2, []⟩ := by
  rw [addChild, hn]
  exact if_pos hgroup

/-- Adding what shows no other node frees nothing. -/
theorem Scene.freed_addChild {kind : Kind R} (hsource : kind.source? = none) (s : Scene R)
    (parent : NodeId) : (s.addChild parent kind).freed = [] := by
  rw [addChild]
  split
  · rfl
  · split
    · dsimp only
      rw [hsource]
    · rfl

/-- So observers are told of nothing. -/
theorem Stage.scene_addChild {kind : Kind R} (hsource : kind.source? = none) (l : Listener R ω)
    (st : Stage R ω) (parent : NodeId) : (st.addChild l parent kind).2 =
      { st with scene := (st.scene.addChild parent kind).scene } := by
  rw [Stage.addChild]
  dsimp only
  rw [freed_addChild hsource]
  rfl

namespace Document

variable {d d' : Document R ω} {layer : LayerHandle} {node : NodeHandle} {mode : StrokeMode}
  {elements : Path R} {c : Conduct R ω} {depth : Nat}

theorem stage_afterwards {ε : Type} {l : Listener R ω} {r : Except ε (Document R ω)}
    (h : ∀ d', r = .ok d' → ∃ commands, d'.stage = Stage.run l commands d.stage) :
    ∃ commands, (d.afterwards r).stage = Stage.run l commands d.stage := by
  cases r with
  | error e => exact ⟨[], rfl⟩
  | ok d' => exact h d' rfl

/-- A path is created by three commands: it is added, and its style and its placement are set. -/
theorem stage_createPathNode {l : Listener R ω}
    (h : d.createPathNode layer mode = .ok (node, d')) :
    ∃ commands, d'.stage = Stage.run l commands d.stage := by
  obtain ⟨m, id, s, hadd, -, rfl⟩ := exists_of_createPathNode h
  obtain ⟨n, t, hn, hgroup, rfl, hstyle, htransform⟩ := exists_of_addPath hadd
  refine ⟨[.addChild layer.id (.path []),
    .edit (.setStyle (d.scene.nextId layer.id (.path [])) (styleOf mode)),
    .edit (.setTransform (d.scene.nextId layer.id (.path [])) m)], ?_⟩
  have hadded : (d.stage.addChild l layer.id (.path [])).2 =
      { d.stage with scene := (d.scene.insertChild layer.id (.path [])).2 } := by
    have hscene : d.stage.scene.addChild layer.id (.path []) = _ := addChild_path hn hgroup
    rw [Stage.scene_addChild rfl, hscene]
    rfl
  simp only [Stage.run, List.foldl_cons, List.foldl_nil, Stage.perform, hadded, Stage.edit,
    Edit.apply, hstyle, htransform, Except.map]
  rfl

/-- Every operation gives commands to the scene. -/
theorem exists_run (l : Listener R ω) (d : Document R ω) (operation : Operation R ω) :
    ∃ commands, (d.perform l operation).stage = Stage.run l commands d.stage := by
  cases operation with
  | command command => exact ⟨[command], rfl⟩
  | setCurrent current => exact stage_afterwards fun d' h => ⟨[], stage_setCurrent h⟩
  | createPathNode layer mode =>
    refine stage_afterwards fun d' h => ?_
    cases hcreate : d.createPathNode layer mode with
    | error e => simp [hcreate, Except.map] at h
    | ok created =>
      rw [hcreate] at h
      cases h
      exact stage_createPathNode hcreate
  | setPathData node elements =>
    refine stage_afterwards fun d' h => ?_
    obtain ⟨s, hs, rfl⟩ := exists_of_setPathData h
    refine ⟨[.edit (.setPath node.id elements)], ?_⟩
    have hs' : d.stage.scene.setPath node.id elements = .ok s := hs
    simp only [Stage.run, List.foldl_cons, List.foldl_nil, Stage.perform, Stage.edit, Edit.apply,
      hs', Except.map]
    rfl
  | removeNode node =>
    refine stage_afterwards fun d' h => ?_
    obtain ⟨id, -, h⟩ := exists_of_bind_eq_ok h
    obtain ⟨stage, hstage, h⟩ := exists_of_bind_eq_ok h
    cases h
    refine ⟨[.remove id], ?_⟩
    simp only [Stage.run, List.foldl_cons, List.foldl_nil, Stage.perform,
      Except.eq_ok_of_mapError hstage]
  | commit label => exact ⟨[], rfl⟩

theorem exists_runs (l : Listener R ω) : ∀ (operations : List (Operation R ω))
    (d : Document R ω), ∃ commands,
      (operations.foldl (perform l) d).stage = Stage.run l commands d.stage := by
  intro operations
  induction operations with
  | nil => exact fun d => ⟨[], rfl⟩
  | cons operation operations ih =>
    intro d
    obtain ⟨commands, hfirst⟩ := d.exists_run l operation
    obtain ⟨more, hrest⟩ := ih (d.perform l operation)
    refine ⟨commands ++ more, ?_⟩
    rw [List.foldl_cons, hrest, hfirst, Stage.run, Stage.run, Stage.run, List.foldl_append]

theorem ReachedBy.foldl (h : d.ReachedBy c depth) (operations : List (Operation R ω)) :
    (operations.foldl (perform (c.listener depth)) d).ReachedBy c depth := by
  obtain ⟨maxPasses, w, before, rfl⟩ := h
  exact ⟨maxPasses, w, before ++ operations, List.foldl_append.symm⟩

theorem ReachedBy.createPathNode (h : d.ReachedBy c depth)
    (hcreate : d.createPathNode layer mode = .ok (node, d')) : d'.ReachedBy c depth := by
  have hperform : d.perform (c.listener depth) (.createPathNode layer mode) = d' := by
    rw [perform, hcreate]
    rfl
  rw [← hperform]
  exact h.foldl [.createPathNode layer mode]

theorem ReachedBy.setPathData (h : d.ReachedBy c depth)
    (hset : d.setPathData node elements = .ok d') : d'.ReachedBy c depth := by
  have hperform : d.perform (c.listener depth) (.setPathData node elements) = d' := by
    rw [perform, hset]
    rfl
  rw [← hperform]
  exact h.foldl [.setPathData node elements]

/-- A new document is what adding a layer to a new scene makes. -/
theorem stage_new (l : Listener R ω) (maxPasses : Nat) (w : ω) :
    (new maxPasses w : Document R ω).stage =
      Stage.run l [.addChild (Scene.new maxPasses : Scene R).root (.group true)]
        (.ofScene (Scene.new maxPasses) w) := by
  show _ = (Stage.addChild l _ _ _).2
  rw [Stage.scene_addChild rfl]
  rfl

theorem ReachedBy.exists_run (h : d.ReachedBy c depth) : ∃ maxPasses w commands,
    d.stage = Stage.run (c.listener depth) commands (.ofScene (Scene.new maxPasses) w) := by
  obtain ⟨maxPasses, w, operations, rfl⟩ := h
  obtain ⟨commands, hrun⟩ := exists_runs (c.listener depth) operations (new maxPasses w)
  refine ⟨maxPasses, w,
    .addChild (Scene.new maxPasses : Scene R).root (.group true) :: commands, ?_⟩
  rw [hrun, stage_new (c.listener depth)]
  simp only [Stage.run, List.foldl_cons, List.foldl_nil]

theorem ReachedBy.scene (h : d.ReachedBy c depth) : d.scene.Reachable := by
  obtain ⟨maxPasses, w, commands, hrun⟩ := h.exists_run
  exact ⟨ω, c, depth, maxPasses, w, commands, congrArg Stage.scene hrun⟩

theorem ReachedBy.scene_settle (h : d.ReachedBy c depth) :
    (Stage.settle (c.listener depth) d.stage).2.scene.Reachable := by
  have hsettled := h.foldl [.command .settle]
  exact hsettled.scene

theorem Reachable.scene (h : d.Reachable) : d.scene.Reachable := by
  obtain ⟨c, depth, hreached⟩ := h
  exact ReachedBy.scene hreached

theorem Reachable.sound (h : d.Reachable) (hfits : d.scene.nodes.Fits) : d.scene.Sound :=
  h.scene.sound hfits

end Document

end Freehand
