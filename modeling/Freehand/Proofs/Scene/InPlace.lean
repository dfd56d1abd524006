import Freehand.Proofs.Scene.Membership
import Freehand.Scene.InPlace

/-!
# Changes step by step and as a whole

Carried out in place, every change does what it does as a whole: it has the same answer, and leaves
the same stage if it is accepted, and the stage as it was if it is refused (`Edit.run_inPlace`).
That takes no more than that checks come before changes, and that what was checked to be there still
is when it is changed.  Removing a node relies on the tree besides: the parent of the node is there
before its subtree is freed, and afterwards (`Action.run_remove`).  Adding a node links it only
after the tree was changed, and takes the node back if that is refused (`Action.run_addChild`).
-/

namespace Freehand

namespace Action

/-! ## Carrying actions out -/

section

variable {ε σ α β : Type} {c : Action ε σ α} {st st' : σ} {a : α} {e : ε}

theorem run_bind (c : Action ε σ α) (f : α → Action ε σ β) (st : σ) :
    run (c >>= f) st = match run c st with
      | (.ok a, st') => run (f a) st'
      | (.error e, st') => (.error e, st') := by
  show ExceptT.bindCont f (c st).1 (c st).2 = _
  rw [show run c st = c st from rfl]
  rcases c st with ⟨_ | _, _⟩ <;> rfl

theorem run_bind_ok (h : run c st = (.ok a, st')) (f : α → Action ε σ β) :
    run (c >>= f) st = run (f a) st' := by
  rw [run_bind, h]

theorem run_bind_error (h : run c st = (.error e, st')) (f : α → Action ε σ β) :
    run (c >>= f) st = (.error e, st') := by
  rw [run_bind, h]

theorem run_get_bind (f : σ → Action ε σ α) (st : σ) : run (get >>= f) st = run (f st) st :=
  rfl

theorem run_tryCatch_ok (h : run c st = (.ok a, st')) (f : ε → Action ε σ α) :
    run (tryCatch c f) st = (.ok a, st') := by
  show (match (c st).1 with
    | Except.ok a => (pure (Except.ok a) : StateM σ _)
    | Except.error e => f e) (c st).2 = _
  rw [show c st = _ from h]
  rfl

theorem run_tryCatch_error (h : run c st = (.error e, st')) (f : ε → Action ε σ α) :
    run (tryCatch c f) st = run (f e) st' := by
  show (match (c st).1 with
    | Except.ok a => (pure (Except.ok a) : StateM σ _)
    | Except.error e => f e) (c st).2 = _
  rw [show c st = _ from h]
  rfl

/-- What is done as a whole and fails changes nothing. -/
theorem eq_of_whole_eq_error {r : Except ε (α × σ)} (h : whole st r = (.error e, st')) :
    st' = st := by
  cases r with
  | ok result => cases h
  | error e =>
    cases h
    rfl

end

open Scene

variable {R ω : Type} (st : Stage R ω) {id owner clone : NodeId} {n : Node R} {flags : Flags}
  {e : SceneError}

/-! ## What steps do -/

theorem run_look (hn : st.scene.node? id = some n) : run (look id) st = (.ok n, st) := by
  rw [look, run_get_bind, hn]
  rfl

theorem run_look_gone (hn : st.scene.node? id = none) :
    run (look id) st = (.error (.staleHandle id), st) := by
  rw [look, run_get_bind, hn]
  rfl

theorem run_consult {f : Scene R → Except SceneError Unit} (h : f st.scene = .ok ()) :
    run (consult f) st = (.ok (), st) := by
  rw [consult, run_get_bind, h]
  rfl

theorem run_consult_error {f : Scene R → Except SceneError Unit} (h : f st.scene = .error e) :
    run (consult f) st = (.error e, st) := by
  rw [consult, run_get_bind, h]
  rfl

theorem run_alter (f : Scene R → Scene R) :
    run (alter f) st = (.ok (), st.withScene (f st.scene)) :=
  rfl

theorem run_store (hn : st.scene.node? id = some n) (f : Node R → Node R) :
    run (store id f) st = (.ok (), st.withScene (st.scene.modify id f)) :=
  run_bind_ok (run_look _ hn) _

theorem run_store_gone (hn : st.scene.node? id = none) (f : Node R → Node R) :
    run (store id f) st = (.error (.staleHandle id), st) :=
  run_bind_error (run_look_gone _ hn) _

theorem run_request (hn : st.scene.node? id = some n) (flags : Flags) :
    run (request id flags) st = (.ok (), st.withScene (st.scene.touch id flags)) := by
  rw [touch, if_pos (contains_of_node? hn)]
  exact run_bind_ok (run_store _ hn _) _

theorem run_request_gone (hn : st.scene.node? id = none) (flags : Flags) :
    run (request id flags) st = (.error (.staleHandle id), st) :=
  run_bind_error (run_store_gone _ hn _) _

/-- Changing a node and asking for an update succeeds if the node is there. -/
theorem run_stored (hn : st.scene.node? id = some n) (f : Node R → Node R) (flags : Flags) :
    run (store id f >>= fun _ => request id flags) st =
      (.ok (), st.withScene ((st.scene.modify id f).touch id flags)) := by
  have hn' : (st.scene.modify id f).node? id = some (f n) := by
    rw [node?_modify_self, hn, Option.map_some]
  rw [run_bind_ok (run_store _ hn f)]
  exact run_request _ hn' flags

/-- A reference is replaced step by step as it is at once, if the owner and the new target are
there. -/
theorem run_setReference (hn : st.scene.node? owner = some n) (role : Role)
    {target : Option NodeId} (ht : ∀ t, target = some t → st.scene.contains t = true) :
    run (setReference owner role target) st =
      (.ok (), st.withScene (st.scene.setReference owner role target)) := by
  have htarget : st.scene.target? owner role =
      (n.references.find? fun l => l.role = role).map Link.node := by
    rw [target?, hn, Option.bind_some]
  have hplace : Agree Node.place st.scene (st.scene.clearReference owner role) :=
    agree_clearReference (fun _ _ _ => rfl) st.scene owner role
  rw [setReference.eq_def, run_bind_ok (run_look _ hn),
    Scene.setReference.eq_def, htarget]
  split
  next => rfl
  next =>
    rw [run_bind_ok (run_alter st _)]
    cases target with
    | none => rfl
    | some new =>
      obtain ⟨m, hm⟩ := contains_iff.1 (ht new rfl)
      obtain ⟨m', hm', -⟩ := hplace.node? hm
      obtain ⟨n', hn', -⟩ := hplace.node? hn
      have hlive : ∃ k, ((st.scene.clearReference owner role).modify new fun m =>
          { m with subscribers := m.subscribers ++ [⟨owner, role⟩] }).node? owner = some k := by
        rw [node?_modify, hn']
        split
        · exact ⟨_, rfl⟩
        · exact ⟨_, rfl⟩
      obtain ⟨k, hk⟩ := hlive
      refine (run_bind_ok (run_store (st.withScene _) hm' _)
        _).trans ?_
      exact run_store (st.withScene _) hk _

theorem run_setReference_gone (hn : st.scene.node? owner = none) (role : Role)
    (target : Option NodeId) :
    run (setReference owner role target) st = (.error (.staleHandle owner), st) :=
  run_bind_error (run_look_gone _ hn) _

/-! ## What changes of one node do -/

/-- What a change of the scene answers and leaves that is made as a whole. -/
def answer (st : Stage R ω) (r : Except SceneError (Scene R)) :
    Except SceneError Unit × Stage R ω :=
  whole st (r.map fun s => ((), st.withScene s))

theorem run_setPath (elements : Path R) :
    run (setPath id elements) st = answer st (st.scene.setPath id elements) := by
  rw [setPath, Scene.setPath]
  cases hn : st.scene.node? id with
  | none => exact run_bind_error (run_look_gone _ hn) _
  | some n =>
    rw [run_bind_ok (run_look _ hn)]
    dsimp only
    split
    next => exact run_stored _ hn _ _
    next => rfl

theorem run_setTransform (id : NodeId) (transform : Affine R) :
    run (setTransform id transform) st = answer st (st.scene.setTransform id transform) := by
  rw [setTransform, Scene.setTransform]
  split
  next hlive =>
    obtain ⟨n, hn⟩ := contains_iff.1 hlive
    exact run_stored _ hn _ _
  next hgone => exact run_bind_error (run_store_gone _ (node?_eq_none hgone) _) _

theorem run_changeUnless (isSo : Node R → Bool) (f : Node R → Node R) :
    run (changeUnless id isSo f flags) st =
      answer st (st.scene.changeUnless id isSo f flags) := by
  rw [changeUnless, Scene.changeUnless]
  cases hn : st.scene.node? id with
  | none => exact run_bind_error (run_look_gone _ hn) _
  | some n =>
    rw [run_bind_ok (run_look _ hn)]
    dsimp only
    split
    next => rfl
    next => exact run_stored _ hn _ _

/-- What a paint refers to is there, once it was checked. -/
theorem contains_of_checkPaint {s : Scene R} {p : Paint} (h : s.checkPaint owner p = .ok ()) :
    ∀ t, p.server? = some t → s.contains t = true := by
  intro t ht
  rw [checkPaint, ht] at h
  dsimp only at h
  rw [checkPaintServer] at h
  split at h
  · cases h
  · cases hm : s.node? t with
    | none =>
      rw [hm] at h
      cases h
    | some m => exact contains_of_node? hm

theorem contains_of_checkSource {s : Scene R} {source : NodeId}
    (h : s.checkSource clone source = .ok ()) : s.contains source = true := by
  rw [checkSource] at h
  cases hm : s.node? source with
  | none =>
    rw [hm] at h
    cases h
  | some m => exact contains_of_node? hm

/-- A node that a reference of was set is still there. -/
theorem exists_setReference (hn : st.scene.node? id = some n) (owner : NodeId) (role : Role)
    (target : Option NodeId) :
    ∃ k, (st.scene.setReference owner role target).node? id = some k := by
  have hplace : Scene.Agree Node.place st.scene (st.scene.setReference owner role target) :=
    agree_setReference (fun _ _ _ => rfl) st.scene owner role target
  obtain ⟨k, hk, -⟩ := hplace.node? hn
  exact ⟨k, hk⟩

/-- The style of a node is stored after both paints were checked, so a refused one leaves no
reference behind. -/
theorem run_setStyle (id : NodeId) (style : Style R) :
    run (setStyle id style) st = answer st (st.scene.setStyle id style) := by
  rw [setStyle, Scene.setStyle]
  cases hfill : st.scene.checkPaint id style.fill with
  | error e => exact run_bind_error (run_consult_error _ hfill) _
  | ok =>
    rw [run_bind_ok (run_consult _ hfill)]
    cases hstroke : st.scene.checkPaint id style.stroke with
    | error e => exact run_bind_error (run_consult_error _ hstroke) _
    | ok =>
      rw [run_bind_ok (run_consult _ hstroke)]
      cases hn : st.scene.node? id with
      | none =>
        have hgone : st.scene.contains id = false := by
          rw [← Bool.not_eq_true, contains_iff, hn]
          rintro ⟨n, ⟨⟩⟩
        rw [hgone]
        exact run_bind_error (run_setReference_gone _ hn .fillServer _) _
      | some n =>
        rw [contains_of_node? hn]
        rw [run_bind_ok (run_setReference _ hn .fillServer (contains_of_checkPaint hfill))]
        obtain ⟨k, hk⟩ := exists_setReference _ hn id .fillServer style.fill.server?
        have hserver : ∀ t, style.stroke.server? = some t →
            (st.scene.setReference id .fillServer style.fill.server?).contains t = true := by
          intro t ht
          obtain ⟨m, hm⟩ := contains_iff.1 (contains_of_checkPaint hstroke t ht)
          obtain ⟨m', hm'⟩ := exists_setReference _ hm id .fillServer style.fill.server?
          exact contains_of_node? hm'
        refine (run_bind_ok (run_setReference (st.withScene _) hk .strokeServer hserver)
          _).trans ?_
        obtain ⟨k', hk'⟩ := exists_setReference (st.withScene _) hk id .strokeServer
          style.stroke.server?
        exact run_stored (st.withScene _) hk' _ _

theorem run_setSource (hn : st.scene.node? clone = some n) {source : Option NodeId}
    (ht : ∀ t, source = some t → st.scene.contains t = true) :
    run (setSource clone source) st = (.ok (), st.withScene (st.scene.setSource clone source)) := by
  obtain ⟨k, hk⟩ := exists_setReference _ hn clone .cloneSource source
  rw [setSource, run_bind_ok (run_setReference _ hn .cloneSource ht)]
  exact run_stored (st.withScene _) hk _ _

/-- A clone is linked after both ends were checked. -/
theorem run_linkClone (clone source : NodeId) :
    run (linkClone clone source) st = answer st (st.scene.linkClone clone source) := by
  rw [linkClone, Scene.linkClone]
  cases hclone : st.scene.checkClone clone with
  | error e => exact run_bind_error (run_consult_error _ hclone) _
  | ok =>
    rw [run_bind_ok (run_consult _ hclone)]
    cases hsource : st.scene.checkSource clone source with
    | error e => exact run_bind_error (run_consult_error _ hsource) _
    | ok =>
      rw [run_bind_ok (run_consult _ hsource)]
      obtain ⟨n, hn, -⟩ := isClone_of_checkClone hclone
      refine run_setSource _ hn fun t ht => ?_
      cases ht
      exact contains_of_checkSource hsource

theorem run_unlinkClone : run (unlinkClone clone) st = answer st (st.scene.unlinkClone clone) := by
  rw [unlinkClone, Scene.unlinkClone]
  cases hclone : st.scene.checkClone clone with
  | error e => exact run_bind_error (run_consult_error _ hclone) _
  | ok =>
    rw [run_bind_ok (run_consult _ hclone)]
    obtain ⟨n, hn, -⟩ := isClone_of_checkClone hclone
    exact run_setSource _ hn nofun

/-- Painting a part with a gradient fails if the gradient does not pass the check, and not after
that. -/
theorem run_setServer (owner server : NodeId) (role : Role) (paint : Style R → Style R) :
    run (setServer owner server role paint) st =
      answer st (st.scene.setServer owner server role paint) := by
  rw [setServer, Scene.setServer]
  cases hcheck : st.scene.checkPaintServer owner server with
  | error e => exact run_bind_error (run_consult_error _ hcheck) _
  | ok =>
    obtain ⟨n, hn⟩ := exists_of_checkPaintServer hcheck
    obtain ⟨k, hk⟩ := exists_setReference _ hn owner role (some server)
    have hserver : ∀ t, some server = some t → st.scene.contains t = true :=
      contains_of_checkPaint (p := .server server) hcheck
    rw [run_bind_ok (run_consult _ hcheck), run_bind_ok (run_setReference _ hn role hserver)]
    exact run_stored (st.withScene _) hk _ _

end Action

/-- Made in place, a change of a node does what it does as a whole. -/
theorem Edit.run_inPlace {R ω : Type} (e : Edit R) (st : Stage R ω) :
    Action.run e.inPlace st = Action.answer st (e.apply st.scene) := by
  cases e with
  | setPath id elements => exact Action.run_setPath _ elements
  | setTransform id transform => exact Action.run_setTransform _ id transform
  | setHidden id hidden => exact Action.run_changeUnless _ _ _
  | setLocked id locked => exact Action.run_changeUnless _ _ _
  | setStyle id style => exact Action.run_setStyle _ id style
  | linkClone clone source => exact Action.run_linkClone _ clone source
  | unlinkClone clone => exact Action.run_unlinkClone _
  | setFillServer owner server =>
    rw [inPlace, apply, Scene.setFillServer]
    exact Action.run_setServer _ owner server .fillServer _
  | setStrokeServer owner server =>
    rw [inPlace, apply, Scene.setStrokeServer]
    exact Action.run_setServer _ owner server .strokeServer _
  | requestUpdate id flags =>
    rw [inPlace, apply, Scene.requestUpdate]
    split
    next hlive =>
      obtain ⟨n, hn⟩ := Scene.contains_iff.1 hlive
      exact Action.run_request _ hn flags
    next hgone => exact Action.run_request_gone _ (Scene.node?_eq_none hgone) flags

namespace Action

open Scene Stage

variable {R ω : Type} [Scalar R] (st : Stage R ω) {id parent : NodeId} {n m : Node R}
  {kind : Kind R}

/-! ## What changes of the tree do -/

/-- The parent of a node that is removed is there while its subtree is freed, and after that. -/
theorem exists_foldl_release {s : Scene R} (hs : s.Tree) (hn : s.node? id = some n)
    (hparent : n.parent = some parent) (hm : s.node? parent = some m) :
    ∃ k, (((s.cut id n).subtree id).foldl release (s.cut id n)).node? parent = some k := by
  have hup : ¬s.Above id parent :=
    hs.grounded.not_above_parent ((parent?_of_node? hn).trans hparent)
  have hnot : parent ∉ (s.cut id n).subtree id := fun hin => hup ((hs.mem_subtree_cut hn).1 hin).1
  have hkept := lasting_foldl_release (s := s.cut id n) hnot
  rw [node?_cut hs hn, hm, Option.map_some, Option.map_some] at hkept
  obtain ⟨k, hk, -⟩ := Option.map_eq_some_iff.1 hkept
  exact ⟨k, hk⟩

/-- Removing a subtree fails before the first step or not at all. -/
theorem run_remove (hs : st.scene.Tree) (l : Listener R ω) (id : NodeId) :
    run (remove l id) st = whole st ((st.remove l id).map fun st' => ((), st')) := by
  rw [remove, run_get_bind, Stage.remove]
  by_cases hid : id = st.scene.root
  · rw [if_pos hid, Scene.remove, if_pos hid]
    rfl
  · rw [if_neg hid]
    cases hn : st.scene.node? id with
    | none =>
      rw [Scene.remove, if_neg hid, hn]
      exact run_bind_error (run_look_gone _ hn) _
    | some n =>
      obtain ⟨p, m, hp, hm, -⟩ := hs.parent hn hid
      obtain ⟨k, hk⟩ := exists_foldl_release hs hn hp hm
      generalize hsubtree : (st.scene.cut id n).subtree id = below at hk
      have hdetach : run (detach n.parent id) st =
          (.ok (), st.withScene (st.scene.detach n.parent id)) := by
        rw [hp]
        exact run_store _ hm _
      have hbelow : run (free l id) (st.withScene (st.scene.cut id n)) =
          (.ok (), announce l (st.withScene (below.foldl release (st.scene.cut id n))) below) := by
        rw [← hsubtree]
        rfl
      have htell : run (tellParent n.parent)
          (announce l (st.withScene (below.foldl release (st.scene.cut id n))) below) =
          (.ok (), announce l (st.withScene
            ((below.foldl release (st.scene.cut id n)).touchParent n.parent)) below) := by
        rw [hp]
        exact run_request (announce l (st.withScene _) below) hk .membership
      rw [remove_eq_ok hid hn, hsubtree, run_bind_ok (run_look _ hn), run_bind_ok hdetach,
        run_bind_ok (run_alter _ _)]
      exact (run_bind_ok hbelow _).trans htell

omit [Scalar R] in
theorem run_insert (n : Node R) :
    run (insert n) st = (.ok (st.scene.nodes.insert n).1,
      st.withScene { st.scene with nodes := (st.scene.nodes.insert n).2 }) :=
  rfl

/-- The steps that add a node which is not linked yet succeed. -/
theorem run_insertChild (hs : st.scene.Sound)
    (hfits : (st.scene.plant parent kind).nodes.Fits) (hn : st.scene.node? parent = some n)
    {α : Type} (f : NodeId → StageAction R ω α) :
    run (do
      let id ← insert (.ofKind kind (some parent))
      store parent fun n => { n with children := n.children ++ [id] }
      request parent .membership
      request id .created
      f id) st =
    run (f (st.scene.nextId parent kind)) (st.withScene (st.scene.insertChild parent kind).2) := by
  have hstored : ({ st.scene with nodes := (st.scene.nodes.insert
      (.ofKind kind (some parent))).2 } : Scene R).node? parent = some n := by
    have hfits' := hfits
    rw [Arena.Fits, size_slots_plant] at hfits'
    exact (Arena.get?_insert hs.valid _ hfits' parent).trans
      ((if_neg (nextId_ne hs.valid hfits hn).symm).trans hn)
  have hnew : ∃ k, ((st.scene.plant parent kind).touch parent .membership).node?
      (st.scene.nextId parent kind) = some k := by
    have hplace : Scene.Agree Node.place (st.scene.plant parent kind)
        ((st.scene.plant parent kind).touch parent .membership) :=
      agree_touch (fun _ _ => rfl) _ parent .membership
    obtain ⟨k, hk, -⟩ := hplace.node? (node?_plant_nextId hs.valid hfits hn)
    exact ⟨k, hk⟩
  obtain ⟨k, hk⟩ := hnew
  rw [run_bind_ok (run_insert st _)]
  refine (run_bind_ok (run_store (st.withScene _) hstored _) _).trans ?_
  refine (run_bind_ok (run_request (st.withScene (st.scene.plant parent kind))
    (node?_plant_of_node? hs.valid hfits hn) .membership) _).trans ?_
  exact run_bind_ok (run_request (st.withScene _) hk .created) _

/-- Linking a new clone succeeds, or the clone is taken back. -/
theorem run_linked (hs : st.scene.Tree) (l : Listener R ω) (id source : NodeId) :
    run (do
      tryCatch (linkClone id source) fun e => do
        remove l id
        throw e
      return id) st =
    match st.scene.linkClone id source with
    | .ok s => (.ok id, st.withScene s)
    | .error e =>
      ((st.scene.takeBack id e).result, announce l (st.withScene (st.scene.takeBack id e).scene)
        (st.scene.takeBack id e).freed) := by
  have hlink := run_linkClone st id source
  have hremove := run_remove st hs l id
  cases hlinked : st.scene.linkClone id source with
  | ok s =>
    rw [hlinked] at hlink
    exact run_bind_ok (run_tryCatch_ok hlink _) _
  | error e =>
    rw [hlinked] at hlink
    rw [Stage.remove] at hremove
    dsimp only
    rw [takeBack]
    cases hremoved : st.scene.remove id with
    | ok result =>
      rw [hremoved] at hremove
      exact run_bind_error ((run_tryCatch_error hlink _).trans (run_bind_ok hremove _)) _
    | error e' =>
      rw [hremoved] at hremove
      exact run_bind_error ((run_tryCatch_error hlink _).trans (run_bind_error hremove _)) _

/-- A clone is linked after it was added, or else taken back. -/
theorem addChild_eq (hn : st.scene.node? parent = some n) (hgroup : n.kind.isGroup = true)
    {source : NodeId} (hsource : kind.source? = some source) (l : Listener R ω) :
    st.addChild l parent kind =
      match (st.scene.insertChild parent (unlinked kind)).2.linkClone
        (st.scene.nextId parent (unlinked kind)) source with
      | .ok s => (.ok (st.scene.nextId parent (unlinked kind)), st.withScene s)
      | .error e =>
        let a := (st.scene.insertChild parent (unlinked kind)).2.takeBack
          (st.scene.nextId parent (unlinked kind)) e
        (a.result, announce l (st.withScene a.scene) a.freed) := by
  have hid : (st.scene.insertChild parent (unlinked kind)).1 =
      st.scene.nextId parent (unlinked kind) := rfl
  rw [Stage.addChild, Scene.addChild, hn]
  dsimp only
  rw [if_pos hgroup, hsource, ← hid]
  dsimp only
  cases (st.scene.insertChild parent (unlinked kind)).2.linkClone
    (st.scene.insertChild parent (unlinked kind)).1 source with
  | ok s => rfl
  | error e => rfl

/-- Adding a node in place does what it does as a whole, whether or not the node is taken back. -/
theorem run_addChild (hs : st.scene.Sound)
    (hfits : (st.scene.plant parent (unlinked kind)).nodes.Fits) (l : Listener R ω) :
    run (addChild l parent kind) st = st.addChild l parent kind := by
  rw [addChild]
  cases hn : st.scene.node? parent with
  | none =>
    rw [Stage.addChild, Scene.addChild, hn]
    exact run_bind_error (run_look_gone _ hn) _
  | some n =>
    rw [run_bind_ok (run_look _ hn)]
    split
    next hgroup =>
      rw [run_insertChild _ hs hfits hn]
      have hinserted := hs.insertChild hfits hn hgroup (source?_unlinked kind)
      cases hsource : kind.source? with
      | none =>
        rw [Stage.addChild, Scene.addChild, hn]
        dsimp only
        rw [if_pos hgroup, hsource]
        rfl
      | some source =>
        rw [addChild_eq _ hn hgroup hsource]
        exact run_linked (st.withScene _) hinserted.tree l _ source
    next hgroup =>
      rw [Stage.addChild, Scene.addChild, hn]
      dsimp only
      rw [if_neg hgroup]
      rfl

end Action

end Freehand
