import Freehand.Proofs.Scene.Marks
import Freehand.Proofs.Scene.Release
import Freehand.Scene.Run

/-!
# Edits

An edit changes one node and the links around it, and marks that node and its ancestors
(`Revised`).  What holds of edits holds of all of them for this reason.

`Scene.Sound` is what all operations keep: the arena is valid, the tree and the links agree with
themselves, and marks rise.
-/

namespace Freehand

/-- What an update writes into a node. -/
def Node.kept {R : Type} (n : Node R) : Flags × Flags × Affine R × Option (Rect R) × R :=
  (n.stale, n.changed, n.world, n.box, n.opacity)

/-- A node without its links. -/
def Node.alone {R : Type} (n : Node R) : Node R :=
  { n with subscribers := [], references := [] }

theorem Kind.exists_of_isPath {R : Type} {k : Kind R} (h : k.isPath = true) :
    ∃ elements, k = .path elements := by
  cases k with
  | path elements => exact ⟨elements, rfl⟩
  | group | clone | gradient => cases h

theorem Kind.exists_of_isClone {R : Type} {k : Kind R} (h : k.isClone = true) :
    ∃ source, k = .clone source := by
  cases k with
  | clone source => exact ⟨source, rfl⟩
  | group | path | gradient => cases h

namespace Scene

variable {R : Type} {s t s' : Scene R} {id o : NodeId} {r : Role} {flags : Flags} {n : Node R}

/-- What all operations keep. -/
structure Sound (s : Scene R) : Prop where
  valid : s.nodes.Valid
  tree : s.Tree
  linked : s.Linked
  rising : s.Rising

/-! ## Revisions -/

/-- The scene `t` differs from `s` in what links look at, and in the node `id` if there are aspects
to be marked. -/
structure Revision (s t : Scene R) (id : NodeId) (flags : Flags) : Prop where
  stays : Stays s t
  same : Agree (fun n => (n.place, n.kept)) s t
  raw : ∀ j, j ≠ id ∨ flags = ∅ → (t.node? j).map Node.raw = (s.node? j).map Node.raw
  hidden : flags.style = true ∨ Agree Node.hidden s t
  linked : s.Sound → t.Linked
  nodesOnly : NodesOnly s t

/-- The scene is the same, or the node `id` was changed and then marked. -/
inductive RevisedAt (s : Scene R) (id : NodeId) (flags : Flags) : Scene R → Prop where
  | same : RevisedAt s id flags s
  | touched {t : Scene R} (h : Revision s t id flags) : RevisedAt s id flags (t.touch id flags)

/-- The scene is the same, or one node was changed and then marked. -/
inductive Revised (s : Scene R) : Scene R → Prop where
  | same : Revised s s
  | touched {t : Scene R} {id : NodeId} {flags : Flags} (h : Revision s t id flags) :
      Revised s (t.touch id flags)

theorem RevisedAt.revised (h : RevisedAt s id flags s') : Revised s s' := by
  cases h with
  | same => exact .same
  | touched hrev => exact .touched hrev

theorem Revised.stays (h : Revised s s') : Stays s s' := by
  cases h with
  | same => exact .refl s
  | touched hrev => exact hrev.stays.trans (stays_touch _ _ _)

/-- Changing one node after its links were changed is a revision. -/
theorem Revision.of_modify {f : Node R → Node R} (hstays : Stays s t)
    (hnodes : NodesOnly s t) (halone : Agree Node.alone s t)
    (hf : ∀ n, t.node? id = some n → (f n).place = n.place ∧ (f n).kept = n.kept)
    (hhidden : flags.style = true ∨ ∀ n, t.node? id = some n → (f n).hidden = n.hidden)
    (hlinked : s.Sound → (t.modify id f).Linked) (hflags : flags ≠ ∅) :
    Revision s (t.modify id f) id flags where
  stays := hstays.trans (stays_modify t id f)
  same := (halone.map fun n => (n.place, n.kept)).trans
    (.modify fun n hn => Prod.ext_iff.2 (hf n hn))
  raw j hj := by
    rcases hj with hne | hempty
    · rw [node?_modify_of_ne t f hne]
      exact halone.map Node.raw j
    · exact absurd hempty hflags
  hidden := hhidden.imp_right fun hsame => (halone.map Node.hidden).trans (.modify hsame)
  linked := hlinked
  nodesOnly := hnodes.trans (nodesOnly_modify t id f)

/-- Links stay good when a node changes in what they do not look at. -/
theorem Linked.modify (h : s.Linked) {f : Node R → Node R}
    (hf : ∀ n, s.node? id = some n →
      (f n).links = n.links ∧ (f n).held = n.held ∧ (f n).parent = n.parent) :
    (s.modify id f).Linked := by
  refine h.of_agree (.modify fun n hn => ?_) fun c p hp => ?_
  · rw [(hf n hn).1, (hf n hn).2.1]
  · rwa [parent?_eq_of_agree (.modify fun n hn => (hf n hn).2.2)] at hp

/-- A wired scene is linked once the owner holds what the table says. -/
theorem Wired.linked_modify {holds : NodeId → Role → Option NodeId} (h : s.Wired holds)
    {f : Node R → Node R} (hf : ∀ n, s.node? o = some n →
      (f n).links = n.links ∧ (f n).parent = n.parent ∧ ∀ r, (f n).held r = holds o r)
    (hothers : ∀ j n, j ≠ o → s.node? j = some n → ∀ r, n.held r = holds j r) :
    (s.modify o f).Linked := by
  have hlinks : Agree Node.links s (s.modify o f) := .modify fun n hn => (hf n hn).1
  refine Wired.of_holds_eq (h.of_agree hlinks fun c p hp => ?_) fun j n' hn' r => ?_
  · rwa [parent?_eq_of_agree (.modify fun n hn => (hf n hn).2.1)] at hp
  · rw [held?_of_node? hn']
    rw [node?_modify] at hn'
    split at hn'
    next hj =>
      obtain ⟨n, hn, rfl⟩ := Option.map_eq_some_iff.1 hn'
      rw [hj] at hn ⊢
      exact (hf n hn).2.2 r
    next hj => exact hothers j n' hj hn' r

theorem exists_of_bind_eq_ok {ε α β : Type} {x : Except ε α} {f : α → Except ε β} {b : β}
    (h : x >>= f = .ok b) : ∃ a, x = .ok a ∧ f a = .ok b := by
  cases x with
  | error e => cases h
  | ok a => exact ⟨a, rfl, h⟩

/-! ## What may be referenced -/

/-- What is accepted as a reference is neither the owner nor above it. -/
theorem Admits.of_acceptReference (hs : s.Grounded) (h : s.acceptReference o id = .ok ())
    (hrole : ∀ m, s.node? id = some m → (m.kind.isGradient = true ↔ r ≠ .cloneSource)) :
    s.Admits o r id := by
  rw [acceptReference] at h
  split at h
  · cases h
  · split at h
    · cases h
    next hid =>
      split at h
      · cases h
      next hup =>
        obtain ⟨m, hm⟩ := contains_iff.1 (by simpa using hid)
        refine ⟨⟨m, hm, hrole m hm⟩, fun habove => hup ?_⟩
        rcases habove.cases with heq | ⟨p, hp, habove'⟩
        · exact .inl heq
        · exact .inr (hs.isAncestor_iff.2 ⟨p, hp, habove'⟩)

theorem exists_of_checkPaintServer (h : s.checkPaintServer o id = .ok ()) :
    ∃ n, s.node? o = some n := by
  rw [checkPaintServer] at h
  split at h
  · cases h
  next ho => exact contains_iff.1 (by simpa using ho)

/-- A gradient that passes the check may be referenced by a paint. -/
theorem Admits.of_checkPaintServer (hs : s.Grounded) (h : s.checkPaintServer o id = .ok ())
    (hrole : r ≠ .cloneSource) : s.Admits o r id := by
  rw [checkPaintServer] at h
  split at h
  · cases h
  · cases hid : s.node? id with
    | none =>
      rw [hid] at h
      cases h
    | some m =>
      rw [hid] at h
      dsimp only at h
      split at h
      next hgradient =>
        refine Admits.of_acceptReference hs h fun m' hm' => ?_
        rw [hid] at hm'
        cases hm'
        exact iff_of_true hgradient hrole
      next => cases h

/-- A source that passes the check is no gradient, and may be shown by a clone. -/
theorem Admits.of_checkSource (hs : s.Grounded) (h : s.checkSource o id = .ok ()) :
    s.Admits o .cloneSource id := by
  rw [checkSource] at h
  cases hid : s.node? id with
  | none =>
    rw [hid] at h
    cases h
  | some m =>
    rw [hid] at h
    dsimp only at h
    split at h
    next => cases h
    next hgradient =>
      refine Admits.of_acceptReference hs h fun m' hm' => ?_
      rw [hid] at hm'
      cases hm'
      exact iff_of_false hgradient fun hne => hne rfl

theorem isClone_of_checkClone (h : s.checkClone id = .ok ()) :
    ∃ n, s.node? id = some n ∧ n.kind.isClone = true := by
  rw [checkClone] at h
  cases hid : s.node? id with
  | none =>
    rw [hid] at h
    cases h
  | some n =>
    rw [hid] at h
    dsimp only at h
    split at h
    next hclone => exact ⟨n, rfl, hclone⟩
    next => cases h

theorem Admits.of_checkPaint (hs : s.Grounded) {p : Paint} (h : s.checkPaint o p = .ok ())
    (hrole : r ≠ .cloneSource) {server : NodeId} (hp : p.server? = some server) :
    s.Admits o r server := by
  rw [checkPaint, hp] at h
  exact Admits.of_checkPaintServer hs h hrole

/-! ## Each edit is a revision -/

theorem revised_modify {f : Node R → Node R} (hf : ∀ n, s.node? id = some n →
      (f n).place = n.place ∧ (f n).kept = n.kept ∧ (f n).links = n.links ∧ (f n).held = n.held)
    (hhidden : flags.style = true ∨ ∀ n, (f n).hidden = n.hidden) (hflags : flags ≠ ∅) :
    RevisedAt s id flags ((s.modify id f).touch id flags) := by
  refine .touched (.of_modify (.refl s) (.refl s) (.refl _ s) (fun n hn => ?_)
    (hhidden.imp_right fun hsame n _ => hsame n) ?_ hflags)
  · exact ⟨(hf n hn).1, (hf n hn).2.1⟩
  · refine fun h => h.linked.modify fun n hn => ⟨(hf n hn).2.2.1, (hf n hn).2.2.2, ?_⟩
    exact congrArg (fun place => place.2.1) (hf n hn).1

/-- The elements of a path are neither a link nor a part of the tree. -/
theorem revised_setPath {elements : Path R} (he : s.setPath id elements = .ok s') :
    RevisedAt s id .shape s' := by
  rw [setPath] at he
  cases hn : s.node? id with
  | none =>
    rw [hn] at he
    cases he
  | some n =>
    rw [hn] at he
    dsimp only at he
    split at he
    next hpath =>
      cases he
      refine revised_modify (fun m hm => ?_) (.inr fun _ => rfl) (by decide)
      rw [hn] at hm
      cases hm
      obtain ⟨old, hk⟩ := Kind.exists_of_isPath hpath
      refine ⟨by simp [Node.place, hk, Kind.isGroup], rfl,
        by simp [Node.links, hk, Kind.isGradient], ?_⟩
      funext r
      cases r <;> simp [Node.held, hk, Kind.source?]
    next => cases he

theorem revised_setTransform {m : Affine R} (he : s.setTransform id m = .ok s') :
    RevisedAt s id .shape s' := by
  rw [setTransform] at he
  split at he
  · cases he
    exact revised_modify (fun n _ => ⟨rfl, rfl, rfl, rfl⟩) (.inr fun _ => rfl) (by decide)
  · cases he

/-- A node that is to be hidden or locked, or not, is changed unless it is so already. -/
theorem revised_changeUnless {isSo : Node R → Bool} {f : Node R → Node R}
    (he : s.changeUnless id isSo f flags = .ok s')
    (hf : ∀ n, (f n).place = n.place ∧ (f n).kept = n.kept ∧ (f n).links = n.links ∧
      (f n).held = n.held)
    (hstyle : flags.style = true) : RevisedAt s id flags s' := by
  rw [changeUnless] at he
  split at he
  · cases he
  · split at he
    · cases he
      exact .same
    · cases he
      refine revised_modify (fun n _ => hf n) (.inl hstyle) fun hempty => ?_
      rw [hempty] at hstyle
      cases hstyle

theorem revised_requestUpdate (he : s.requestUpdate id flags = .ok s') :
    RevisedAt s id flags s' := by
  rw [requestUpdate] at he
  split at he
  · cases he
    exact .touched ⟨.refl s, .refl _ s, fun _ _ => rfl, .inr (.refl _ s), fun h => h.linked,
      .refl s⟩
  · cases he

/-- An owner whose references were replaced is given the values for them and marked. -/
theorem revised_of_wired {holds : NodeId → Role → Option NodeId} (hw : s.Sound → t.Wired holds)
    (hstays : Stays s t) (hnodes : NodesOnly s t) (halone : Agree Node.alone s t)
    (hn : s.node? o = some n)
    (hholds : ∀ j r, j ≠ o → holds j r = s.held? j r) {f : Node R → Node R}
    (hf : ∀ m, m.alone = n.alone → (f m).place = m.place ∧ (f m).kept = m.kept ∧
      (f m).links = m.links ∧ ∀ r, (f m).held r = holds o r)
    (hhidden : ∀ m, (f m).hidden = m.hidden) (hflags : flags ≠ ∅) :
    RevisedAt s o flags ((t.modify o f).touch o flags) := by
  have hf' : ∀ m, t.node? o = some m → (f m).place = m.place ∧ (f m).kept = m.kept ∧
      (f m).links = m.links ∧ ∀ r, (f m).held r = holds o r := by
    intro m hm
    have heq := halone.part_eq hn hm
    exact hf m heq
  refine .touched (.of_modify hstays hnodes halone (fun m hm => ?_) (.inr fun m _ => hhidden m) ?_
    hflags)
  · exact ⟨(hf' m hm).1, (hf' m hm).2.1⟩
  · refine fun h => (hw h).linked_modify (fun m hm => ?_) fun j m hj hm r => ?_
    · exact ⟨(hf' m hm).2.2.1, congrArg (fun place => place.2.1) (hf' m hm).1, (hf' m hm).2.2.2⟩
    · obtain ⟨k, hk, heq⟩ := halone.symm.node? hm
      rw [hholds j r hj, held?_of_node? hk]
      exact (congrArg (fun m => Node.held m r) heq.symm :)

/-- A reference in one role is replaced, and the owner given a value that holds the new one. -/
theorem revised_setReference (hn : s.node? o = some n) {target : Option NodeId}
    (hadmits : s.Grounded → ∀ t, target = some t → s.Admits o r t) {f : Node R → Node R}
    (hf : ∀ m, m.alone = n.alone → (f m).place = m.place ∧ (f m).kept = m.kept ∧
      (f m).links = m.links ∧ ∀ r', (f m).held r' = if r' = r then target else n.held r')
    (hhidden : ∀ m, (f m).hidden = m.hidden) (hflags : flags ≠ ∅) :
    RevisedAt s o flags (((s.setReference o r target).modify o f).touch o flags) := by
  refine revised_of_wired (fun h => Wired.setReference h.linked hn (hadmits h.tree.grounded))
    (stays_setReference s o r target) (nodesOnly_setReference s o r target)
    (agree_setReference (fun _ _ _ => rfl) s o r target) hn
    (fun j r' hj => ?_) (fun m hm => ?_) hhidden hflags
  · exact if_neg fun hand => hj hand.1
  · obtain ⟨hplace, hkept, hlinks, hheld⟩ := hf m hm
    refine ⟨hplace, hkept, hlinks, fun r' => (hheld r').trans ?_⟩
    simp [repoint, held?_of_node? hn]

theorem revised_setSource (hn : s.node? o = some n) (hclone : n.kind.isClone = true)
    {source : Option NodeId}
    (hadmits : s.Grounded → ∀ t, source = some t → s.Admits o .cloneSource t) :
    RevisedAt s o Role.cloneSource.stale (s.setSource o source) := by
  refine revised_setReference hn hadmits (fun m hm => ?_) (fun _ => rfl) (by decide)
  have hkind : m.kind = n.kind := (congrArg Node.kind hm :)
  have hstyle : m.style = n.style := (congrArg Node.style hm :)
  obtain ⟨old, hk⟩ := Kind.exists_of_isClone (hkind ▸ hclone)
  refine ⟨by simp [Node.place, hk, Kind.isGroup], rfl,
    by simp [Node.links, hk, Kind.isGradient], fun r => ?_⟩
  cases r <;> simp [Node.held, Kind.source?, hstyle]

theorem revised_linkClone {clone source : NodeId}
    (he : s.linkClone clone source = .ok s') : RevisedAt s clone Role.cloneSource.stale s' := by
  obtain ⟨⟨⟩, hclone, he⟩ := exists_of_bind_eq_ok he
  obtain ⟨⟨⟩, hsource, he⟩ := exists_of_bind_eq_ok he
  cases he
  obtain ⟨n, hn, hkind⟩ := isClone_of_checkClone hclone
  refine revised_setSource hn hkind fun hs t ht => ?_
  cases ht
  exact .of_checkSource hs hsource

theorem revised_unlinkClone {clone : NodeId} (he : s.unlinkClone clone = .ok s') :
    RevisedAt s clone Role.cloneSource.stale s' := by
  obtain ⟨⟨⟩, hclone, he⟩ := exists_of_bind_eq_ok he
  cases he
  obtain ⟨n, hn, hkind⟩ := isClone_of_checkClone hclone
  exact revised_setSource hn hkind fun _ => nofun

/-- Painting with a gradient stores it in one role, whichever of the two paints that is. -/
theorem revised_setServer {server : NodeId} {paint : Style R → Style R}
    (he : s.setServer o server r paint = .ok s') (hrole : r ≠ .cloneSource)
    (hpaint : ∀ (n : Node R) r', Node.held { n with style := paint n.style } r' =
      if r' = r then some server else n.held r') : RevisedAt s o r.stale s' := by
  obtain ⟨⟨⟩, hcheck, he⟩ := exists_of_bind_eq_ok he
  cases he
  obtain ⟨n, hn⟩ := exists_of_checkPaintServer hcheck
  refine revised_setReference hn (fun hs t ht => ?_) (fun m hm => ?_) (fun _ => rfl)
    (by cases r <;> decide)
  · cases ht
    exact .of_checkPaintServer hs hcheck hrole
  · have hheld : m.held = n.held := (congrArg Node.held hm :)
    rw [← hheld]
    exact ⟨rfl, rfl, rfl, hpaint m⟩

/-- After both references were replaced, the scene is wired for both. -/
theorem Sound.wired_setPaints (h : s.Sound) (hn : s.node? o = some n) {style : Style R}
    (hfill : s.checkPaint o style.fill = .ok ()) (hstroke : s.checkPaint o style.stroke = .ok ()) :
    ((s.setReference o .fillServer style.fill.server?).setReference o .strokeServer
      style.stroke.server?).Wired (repoint (repoint s.held? o .fillServer style.fill.server?) o
        .strokeServer style.stroke.server?) := by
  have hs := h.tree.grounded
  have halone : Agree Node.alone s (s.setReference o .fillServer style.fill.server?) :=
    agree_setReference (fun _ _ _ => rfl) s o _ _
  have hfirst := Wired.setReference h.linked hn fun t ht =>
    Admits.of_checkPaint hs hfill (r := .fillServer) (by decide) ht
  obtain ⟨k, hk, -⟩ := halone.node? hn
  exact hfirst.setReference hk fun t ht =>
    (Admits.of_checkPaint hs hstroke (by decide) ht).of_agree
      (halone.map fun n => (n.parent, n.kind.isGradient))

/-- Both paints are replaced before the style is stored. -/
theorem revised_setStyle {style : Style R} (he : s.setStyle o style = .ok s') :
    RevisedAt s o .paint s' := by
  obtain ⟨⟨⟩, hfill, he⟩ := exists_of_bind_eq_ok he
  obtain ⟨⟨⟩, hstroke, he⟩ := exists_of_bind_eq_ok he
  split at he
  next hlive =>
    cases he
    obtain ⟨n, hn⟩ := contains_iff.1 hlive
    have halone : ∀ (t : Scene R) r target, Agree Node.alone t (t.setReference o r target) :=
      fun t r target => agree_setReference (fun _ _ _ => rfl) t o r target
    refine revised_of_wired (fun h => h.wired_setPaints hn hfill hstroke)
      ((stays_setReference s o _ _).trans (stays_setReference _ o _ _))
      ((nodesOnly_setReference s o _ _).trans (nodesOnly_setReference _ o _ _))
      ((halone s _ _).trans (halone _ _ _)) hn (fun j r hj => ?_) (fun m hm => ?_) (fun _ => rfl)
      (by decide)
    · simp [repoint, hj]
    · have hkind : m.kind = n.kind := (congrArg Node.kind hm :)
      refine ⟨rfl, rfl, rfl, fun r => ?_⟩
      cases r <;> simp [repoint, held?_of_node? hn, Node.held, hkind]
  next => cases he

/-- Every edit that succeeds changes its subject and marks it, or nothing. -/
theorem revisedAt_apply (e : Edit R) (he : e.apply s = .ok s') :
    RevisedAt s e.subject e.flags s' := by
  cases e with
  | setPath id elements => exact revised_setPath he
  | setTransform id m => exact revised_setTransform he
  | setHidden id hidden => exact revised_changeUnless he (fun _ => ⟨rfl, rfl, rfl, rfl⟩) rfl
  | setLocked id locked => exact revised_changeUnless he (fun _ => ⟨rfl, rfl, rfl, rfl⟩) rfl
  | setStyle id style => exact revised_setStyle he
  | linkClone clone source => exact revised_linkClone he
  | unlinkClone clone => exact revised_unlinkClone he
  | setFillServer owner server =>
    rw [Edit.apply, setFillServer] at he
    refine revised_setServer he (by decide) fun n r => ?_
    cases r <;> simp [Node.held, Paint.server?]
  | setStrokeServer owner server =>
    rw [Edit.apply, setStrokeServer] at he
    refine revised_setServer he (by decide) fun n r => ?_
    cases r <;> simp [Node.held, Paint.server?]
  | requestUpdate id flags => exact revised_requestUpdate he

theorem revised_apply (e : Edit R) (he : e.apply s = .ok s') : Revised s s' :=
  (revisedAt_apply e he).revised

/-! ## Edits keep scenes sound -/

theorem Sound.touch (h : s.Sound) (id : NodeId) (flags : Flags) : (s.touch id flags).Sound where
  valid := (stays_touch s id flags).valid h.valid
  tree := h.tree.of_agree (root_touch s id flags) (agree_touch (fun _ _ => rfl) s id flags)
  linked := h.linked.of_agree (agree_touch (fun _ _ => rfl) s id flags) fun c p hp => by
    rwa [parent?_eq_of_agree (agree_touch (fun _ _ => rfl) s id flags)] at hp
  rising := h.rising.touch h.tree.grounded id flags

theorem Sound.revision (h : s.Sound) (hrev : Revision s t id flags) : t.Sound where
  valid := hrev.stays.valid h.valid
  tree := h.tree.of_agree hrev.stays.root (hrev.same.map Prod.fst)
  linked := hrev.linked h
  rising := h.rising.of_agree (hrev.same.map fun part => (part.1.2.1, part.2.1))

theorem Sound.of_revised (h : s.Sound) (hrev : Revised s s') : s'.Sound := by
  cases hrev with
  | same => exact h
  | touched hrev => exact (h.revision hrev).touch _ _

end Scene

end Freehand
