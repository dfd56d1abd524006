import Freehand.Document.InPlace
import Freehand.Proofs.Document.Strokes
import Freehand.Proofs.Scene.Refusal

/-!
# Refused calls of documents

Made in place, each call of a tool does what it does as a whole, since no scene refuses what the
document has checked (`Document.run_createPathNode`); so a refused one leaves the document as it
was.
-/

namespace Freehand

namespace Document

open Freehand.Action Scene

variable {R ω α : Type} [Scalar R]

/-! ## What steps do -/

section

omit [Scalar R]

variable (d : Document R ω) {f : Document R ω → Except DocumentError α} {a : α} {e : DocumentError}

theorem run_ask (h : f d = .ok a) : run (ask f) d = (.ok a, d) := by
  rw [ask, run_get_bind, h]
  rfl

theorem run_ask_error (h : f d = .error e) : run (ask f) d = (.error e, d) := by
  rw [ask, run_get_bind, h]
  rfl

theorem run_handOn {c : StageAction R ω α} {r : Except SceneError (α × Stage R ω)}
    (h : run c d.stage = whole d.stage r) :
    run (handOn c) d = whole d ((r.mapError DocumentError.ofScene).map fun (a, stage) =>
      (a, d.withStage stage)) := by
  show ((run c d.stage).1.mapError DocumentError.ofScene, d.withStage (run c d.stage).2) = _
  rw [h]
  rcases r with e | ⟨a, stage⟩ <;> rfl

theorem run_handOn_ok {c : StageAction R ω α} {st : Stage R ω} (h : run c d.stage = (.ok a, st)) :
    run (handOn c) d = (.ok a, d.withStage st) :=
  run_handOn d (r := .ok (a, st)) h

/-- Whether elements may be set is checked before they are, so nothing has to be taken back. -/
theorem run_setPathData (node : NodeHandle) (elements : Path R) :
    run (setPathDataInPlace node elements) d =
      whole d ((d.setPathData node elements).map fun d' => ((), d')) := by
  rw [setPathDataInPlace, setPathData]
  cases hnode : d.resolveNode node with
  | error e => exact run_bind_error (run_ask_error d hnode) _
  | ok id =>
    have hset : run (handOn (Action.setPath id elements)) d =
        whole d ((do
          let scene ← (d.scene.setPath id elements).mapError DocumentError.ofScene
          return d.withScene scene : Except DocumentError (Document R ω)).map fun d' =>
            ((), d')) := by
      rw [run_handOn d (run_setPath d.stage elements)]
      show _ = whole d (((d.stage.scene.setPath id elements).mapError _ >>= _).map _)
      cases d.stage.scene.setPath id elements <;> rfl
    rw [run_bind_ok (run_ask d hnode)]
    cases elements with
    | nil => exact hset
    | cons first rest =>
      cases first with
      | moveTo p => exact hset
      | lineTo | quadTo | curveTo | close => rfl

end

theorem run_removeNode (d : Document R ω) (hs : d.scene.Tree) (l : Listener R ω)
    (node : NodeHandle) :
    run (removeNodeInPlace l node) d =
      whole d ((d.removeNode l node).map fun d' => ((), d')) := by
  rw [removeNodeInPlace, removeNode]
  cases hnode : d.resolveNode node with
  | error e => exact run_bind_error (run_ask_error d hnode) _
  | ok id =>
    rw [run_bind_ok (run_ask d hnode), run_handOn d (run_remove d.stage hs l id)]
    show _ = whole d (((d.stage.remove l id).mapError _ >>= _).map _)
    cases d.stage.remove l id <;> rfl

omit [Scalar R] in
/-- A layer is a group. -/
theorem isGroup_of_resolveLayer {d : Document R ω} {layer : LayerHandle} {id : NodeId}
    (h : d.resolveLayer layer = .ok id) :
    ∃ n, d.scene.node? id = some n ∧ n.kind.isGroup = true := by
  rw [resolveLayer] at h
  split at h
  next hlayer =>
    cases h
    obtain ⟨n, hn, hkind⟩ := (Option.any_eq_true _ _).1 hlayer
    refine ⟨n, hn, ?_⟩
    cases hk : n.kind with
    | group layer => rfl
    | path elements | clone source | gradient stops =>
      rw [hk] at hkind
      cases hkind
  next => cases h

omit [Scalar R] in
/-- A style and a placement are set of a node that references nothing. -/
theorem run_dressed (d : Document R ω) {id : NodeId} {n : Node R}
    (hn : d.scene.node? id = some n) (hreferences : n.references = []) {style : Style R}
    (hfill : style.fill.server? = none) (hstroke : style.stroke.server? = none) (m : Affine R) :
    run (do
      handOn (Action.setStyle id style)
      handOn (Action.setTransform id m)
      return id.toNode) d = (.ok id.toNode, d.withScene (d.scene.dressed id style m)) := by
  obtain ⟨s, hstyle, htransform⟩ := exists_dressed hn hreferences hfill hstroke m
  have hstyled := run_setStyle d.stage id style
  rw [show d.stage.scene.setStyle id style = .ok s from hstyle] at hstyled
  have hplaced := run_setTransform (d.stage.withScene s) id m
  rw [show (d.stage.withScene s).scene.setTransform id m = _ from htransform] at hplaced
  rw [run_bind_ok (run_handOn_ok d hstyled)]
  exact run_bind_ok (run_handOn_ok (d.withStage (d.stage.withScene s)) hplaced) _

/-- The three calls that add a path to a group are accepted. -/
theorem run_addPath (d : Document R ω) (hs : d.scene.Sound)
    (hroom : d.scene.nodes.slots.size < UInt32.size) {host : NodeId} {n : Node R}
    (hn : d.scene.node? host = some n) (hgroup : n.kind.isGroup = true) {style : Style R}
    (hfill : style.fill.server? = none) (hstroke : style.stroke.server? = none) (m : Affine R)
    (l : Listener R ω) :
    run (do
      let node ← handOn (Action.addChild l host (.path []))
      handOn (Action.setStyle node style)
      handOn (Action.setTransform node m)
      return node.toNode) d =
    whole d (((addPath d.scene host style m).mapError DocumentError.ofScene).map
      fun (node, scene) => (node.toNode, d.withScene scene)) := by
  have hfits := fits_plant hroom host (.path [])
  obtain ⟨k, hk, hreferences⟩ := references_insertChild hs.valid hfits hn
  have hadd : run (Action.addChild l host (.path [])) d.stage =
      (.ok (d.scene.nextId host (.path [])),
        d.stage.withScene (d.scene.insertChild host (.path [])).2) := by
    have hfits' : (d.stage.scene.plant host (unlinked (.path []))).nodes.Fits := hfits
    have hadd : d.stage.scene.addChild host (.path []) = _ := addChild_path hn hgroup
    rw [run_addChild d.stage hs hfits', Stage.addChild, hadd]
    rfl
  rw [addPath_eq hs.valid hfits hn hgroup hfill hstroke m, run_bind_ok (run_handOn_ok d hadd)]
  generalize (d.scene.insertChild host (.path [])).2 = t at hk ⊢
  exact run_dressed (d.withStage (d.stage.withScene t)) hk hreferences hfill hstroke m

/-- After its checks, creating a path cannot fail. -/
theorem run_createPathNode (d : Document R ω) (hs : d.scene.Sound)
    (hroom : d.scene.nodes.slots.size < UInt32.size) (l : Listener R ω) (layer : LayerHandle)
    (mode : StrokeMode) :
    run (createPathNodeInPlace l layer mode) d = whole d (d.createPathNode layer mode) := by
  rw [createPathNodeInPlace, createPathNode]
  cases hid : d.resolveLayer layer with
  | error e => exact run_bind_error (run_ask_error d hid) _
  | ok id =>
    rw [run_bind_ok (run_ask d hid), run_get_bind]
    show _ = whole d (if d.scene.isEffectivelyLocked id = true then _ else _)
    by_cases hlocked : d.scene.isEffectivelyLocked id = true
    · rw [if_pos hlocked, if_pos hlocked]
      rfl
    · rw [if_neg hlocked, if_neg hlocked]
      cases hplacement : (d.scene.composedTransform id).mapError DocumentError.ofScene with
      | error e =>
        exact run_bind_error (run_ask_error d (f := fun d =>
          (d.scene.composedTransform id).mapError DocumentError.ofScene) hplacement) _
      | ok m =>
        rw [run_bind_ok (run_ask d (f := fun d =>
          (d.scene.composedTransform id).mapError DocumentError.ofScene) hplacement)]
        show _ = whole d (if (m.determinant == 0 || !Scalar.isFinite m.determinant) = true then _
          else _)
        by_cases hdet : (m.determinant == 0 || !Scalar.isFinite m.determinant) = true
        · rw [if_pos hdet, if_pos hdet]
          rfl
        · rw [if_neg hdet, if_neg hdet]
          obtain ⟨n, hn, hgroup⟩ := isGroup_of_resolveLayer hid
          obtain ⟨hfill, hstroke⟩ := servers_styleOf (R := R) mode
          refine (run_addPath d hs hroom hn hgroup hfill hstroke m.inverse l).trans ?_
          show _ = whole d (((addPath d.scene id (styleOf mode) m.inverse).mapError
            DocumentError.ofScene >>= _))
          cases addPath d.scene id (styleOf mode) m.inverse <;> rfl

/-! ## Requests -/

/-- Made in place, every call does what it does as a whole. -/
theorem run_request (d : Document R ω) (hs : d.scene.Sound)
    (hroom : d.scene.nodes.slots.size < UInt32.size) (l : Listener R ω) (request : Request R) :
    run (request.inPlace l) d = request.perform l d := by
  cases request with
  | createPathNode layer mode =>
    rw [Request.inPlace, run_map, run_createPathNode d hs hroom, Request.perform]
    cases d.createPathNode layer mode <;> rfl
  | setPathData node elements =>
    rw [Request.inPlace, run_bind, run_setPathData, Request.perform]
    cases d.setPathData node elements <;> rfl
  | removeNode node =>
    rw [Request.inPlace, run_bind, run_removeNode d hs.tree, Request.perform]
    cases d.removeNode l node <;> rfl

theorem eq_of_run_request (d : Document R ω) {d' : Document R ω} (hs : d.scene.Sound)
    (hroom : d.scene.nodes.slots.size < UInt32.size) {l : Listener R ω} {request : Request R}
    {e : DocumentError} (h : run (request.inPlace l) d = (.error e, d')) : d' = d := by
  rw [run_request d hs hroom] at h
  cases request <;> exact eq_of_whole_eq_error h

end Document

/-! ## Scenes and documents on the way -/

namespace Scene

variable {R : Type} [Scalar R] {s : Scene R}

/-- A course leads to the scene from a new one: it stands between two commands, or observers see it
in the middle of an update. -/
def Visited (s : Scene R) : Prop :=
  ∃ (ω : Type) (maxPasses : Nat) (J : Journal R ω), Course (new maxPasses, []) (s, J)

theorem Reachable.visited (h : s.Reachable) : s.Visited :=
  h.course

theorem Visited.sound (h : s.Visited) (hfits : s.nodes.Fits) : s.Sound := by
  obtain ⟨ω, maxPasses, J, hcourse⟩ := h
  exact hcourse.sound hfits (sound_new maxPasses)

end Scene

open Freehand.Action in
/-- A call that is refused leaves a scene as it was, also where it was made in the middle of an
update, and a document: nothing is changed before everything is checked that can fail.  The one
exception is a new clone of a node that it may not show.  It is taken back, of which the observers
are told; what is left is an update asked for, marks on the parent and above, and that the slot of
the clone counts as emptied once more. -/
theorem Document.refused_exact {R ω : Type} [Scalar R] {st : Stage R ω} {d : Document R ω}
    (hst : st.scene.Visited) (hd : d.Reachable) (hroom : st.scene.nodes.slots.size < UInt32.size)
    (hroom' : d.scene.nodes.slots.size < UInt32.size) (l : Listener R ω) :
    (∀ call : Mutator R, run (call.inPlace l) st = call.perform l st ∧
      ∀ e st', run (call.inPlace l) st = (.error e, st') → call.Refused l st e st') ∧
    (∀ call : Mutator R, run (call.inPlace l) d.stage = call.perform l d.stage ∧
      ∀ e st', run (call.inPlace l) d.stage = (.error e, st') → call.Refused l d.stage e st') ∧
    ∀ request : Request R, run (request.inPlace l) d = request.perform l d ∧
      ∀ e d', run (request.inPlace l) d = (.error e, d') → d' = d := by
  have hs := hst.sound (Nat.le_of_lt hroom)
  have hs' := hd.sound (Nat.le_of_lt hroom')
  refine ⟨fun call => ⟨run_mutator hs hroom l call, fun e st' => refused_of_run hs hroom⟩,
    fun call => ⟨run_mutator hs' hroom' l call, fun e st' => refused_of_run hs' hroom'⟩,
    fun request => ⟨d.run_request hs' hroom' l request, fun e d' => ?_⟩⟩
  exact d.eq_of_run_request hs' hroom'

/-- A new document. -/
def Document.blank : Document Float (List NodeId) :=
  .new Scene.standardPasses []

open Freehand.Action Scene in
/-- In the sketch, a new clone in the group may not show the root.  In a new document, no
elements are set that start with the end of a subpath. -/
theorem Document.refused_exact_sketch :
    (∃ e s', sketch.TakenBack ⟨1, 0⟩ ⟨5, 1⟩ s' ∧
      run ((Mutator.addChild ⟨1, 0⟩ (.clone (some ⟨0, 0⟩))).inPlace releases) watched =
        (.error e, Stage.announce releases (watched.withScene s') [⟨5, 1⟩])) ∧
    ∃ e, run ((Request.setPathData ⟨1⟩ [.close]).inPlace releases) blank = (.error e, blank) := by
  have hst : watched.scene.Visited := reachable_sketch.visited
  have hd : blank.Reachable := ⟨.silent, 0, standardPasses, [], [], rfl⟩
  obtain ⟨hscene, -, hdocument⟩ := refused_exact hst hd (by decide) (by decide) releases
  constructor
  · have hfails : (run ((Mutator.addChild ⟨1, 0⟩ (.clone (some ⟨0, 0⟩))).inPlace releases)
        watched).1.isOk = false := by decide
    have htold : (run ((Mutator.addChild ⟨1, 0⟩ (.clone (some ⟨0, 0⟩))).inPlace releases)
        watched).2.world = [⟨5, 1⟩] := by decide
    cases hrun : run ((Mutator.addChild ⟨1, 0⟩ (.clone (some ⟨0, 0⟩))).inPlace releases)
        watched with
    | mk result st' =>
      rw [hrun] at hfails htold
      cases result with
      | ok id => cases hfails
      | error e =>
        cases (hscene _).2 e st' hrun with
        | unchanged => cases htold
        | takenBack hp hgroup hgone hbarred htaken =>
          cases htold
          exact ⟨e, _, htaken, rfl⟩
  · have hfails : (run ((Request.setPathData ⟨1⟩ [.close]).inPlace releases) blank).1.isOk =
        false := by decide
    cases hrun : run ((Request.setPathData ⟨1⟩ [.close]).inPlace releases) blank with
    | mk result d' =>
      rw [hrun] at hfails
      cases result with
      | ok node => cases hfails
      | error e => exact ⟨e, by rw [(hdocument _).2 e d' hrun]⟩

end Freehand
