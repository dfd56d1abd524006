import Freehand.Proofs.Scene.Membership
import Freehand.Proofs.Scene.Boxes

/-!
# What is not stale is exact

In a *fresh* scene a node without marks has the placement and the opacity that its parent hands down
to it, and a node that reaches no marks, through children and through clones, has the right box.

Every change keeps a scene fresh for one reason: it leaves the caches alone, and a node that it
leaves without marks is as it was (`Edited`, `Fresh.of_edited`).
-/

namespace Freehand

/-- What a node remembers of the last update. -/
def Node.caches {R : Type} (n : Node R) : Affine R × Option (Rect R) × R :=
  (n.world, n.box, n.opacity)

namespace Scene

variable {R : Type} {s s' s'' t : Scene R} {id d p : NodeId} {n n' m : Node R} {flags : Flags}

/-! ## Changes that mark what they change -/

/-- The caches stay, and the nodes without marks were there before as they are, without marks. -/
structure Edited (s s' : Scene R) : Prop where
  same : ∀ ⦃id n'⦄, s'.node? id = some n' → n'.stale = ∅ →
    ∃ n, s.node? id = some n ∧ n.stale = ∅ ∧ n'.raw = n.raw
  caches : ∀ ⦃id n n'⦄, s.node? id = some n → s'.node? id = some n' → n'.caches = n.caches

/-- No node is new, marks and caches stay, and what changed is marked. -/
def Wears (s s' : Scene R) : Prop :=
  ∀ ⦃id n'⦄, s'.node? id = some n' → ∃ n, s.node? id = some n ∧ n.stale ⊆ n'.stale ∧
    n'.caches = n.caches ∧ (n'.raw = n.raw ∨ n'.stale ≠ ∅)

namespace Wears

/-- What was worn is still worn after another change. -/
theorem trans (h : Wears s s') (h' : Wears s' s'') : Wears s s'' := by
  intro id n'' hn''
  obtain ⟨n', hn', hstale', hcaches', hraw'⟩ := h' hn''
  obtain ⟨n, hn, hstale, hcaches, hraw⟩ := h hn'
  refine ⟨n, hn, Flags.subset_trans hstale hstale', hcaches'.trans hcaches, ?_⟩
  rcases hraw' with hraw' | hmarked
  · rcases hraw with hraw | hmarked
    · exact .inl (hraw'.trans hraw)
    · exact .inr (Flags.ne_empty_of_subset hstale' hmarked)
  · exact .inr hmarked

theorem of_agree (h : Agree (fun n => (n.raw, n.stale, n.caches)) s s') : Wears s s' := by
  intro id n' hn'
  obtain ⟨n, hn, heq⟩ := h.symm.node? hn'
  simp only [Prod.mk.injEq] at heq
  obtain ⟨hraw, hstale, hcaches⟩ := heq
  refine ⟨n, hn, ?_, hcaches.symm, .inl hraw.symm⟩
  rw [hstale]
  exact Flags.subset_refl _

theorem refl (s : Scene R) : Wears s s :=
  .of_agree (.refl _ s)

theorem foldl {α : Type} {f : Scene R → α → Scene R} (h : ∀ s a, Wears s (f s a))
    (as : List α) (s : Scene R) : Wears s (as.foldl f s) :=
  as.foldlRecOn f (.refl s) fun t ht a _ => ht.trans (h t a)

/-- A node that wears its marks is edited at most: what differs from before is marked. -/
theorem edited (h : Wears s s') : Edited s s' := by
  refine ⟨fun id n' hn' hstale => ?_, fun id n n' hn hn' => ?_⟩
  · obtain ⟨n, hn, hsub, -, hraw⟩ := h hn'
    rw [hstale] at hsub hraw
    rcases hraw with hraw | hmarked
    · exact ⟨n, hn, Flags.eq_empty_of_subset hsub, hraw⟩
    · exact absurd rfl hmarked
  · obtain ⟨k, hk, -, hcaches, -⟩ := h hn'
    rw [hn] at hk
    cases hk
    exact hcaches

end Wears

theorem edited_of_nodes_eq (hnodes : s'.nodes = s.nodes) : Edited s s' :=
  (Wears.of_agree (.of_node?_eq fun id => by rw [node?, node?, hnodes])).edited

/-! ## Marking -/

/-- A mark is added to those that are there. -/
theorem stale_mark (s : Scene R) (id : NodeId) (flags : Flags) {j : NodeId} {n' : Node R}
    (hn' : (s.mark flags id).node? j = some n') :
    ∃ n, s.node? j = some n ∧ n.stale ⊆ n'.stale ∧ (j = id → flags ⊆ n'.stale) := by
  rw [node?_mark] at hn'
  split at hn'
  · obtain ⟨n, hn, rfl⟩ := Option.map_eq_some_iff.1 hn'
    exact ⟨n, hn, Flags.subset_union_left _ _, fun _ => Flags.subset_union_right _ _⟩
  next hj => exact ⟨n', hn', Flags.subset_refl _, fun heq => absurd heq hj⟩

/-- The climb adds marks and takes none away. -/
theorem stale_markChain (flags : Flags) {j : NodeId} {n' : Node R} :
    ∀ (ids : List NodeId) (s : Scene R), (markChain flags s ids).node? j = some n' →
      ∃ n, s.node? j = some n ∧ n.stale ⊆ n'.stale := by
  intro ids
  induction ids with
  | nil => exact fun s hn' => ⟨n', hn', Flags.subset_refl _⟩
  | cons id ids ih =>
    intro s hn'
    rw [markChain] at hn'
    split at hn'
    · exact ⟨n', hn', Flags.subset_refl _⟩
    · split at hn'
      · exact ⟨n', hn', Flags.subset_refl _⟩
      · obtain ⟨m, hm, hsub⟩ := ih _ hn'
        obtain ⟨n, hn, hsub', -⟩ := stale_mark s id flags hm
        exact ⟨n, hn, Flags.subset_trans hsub' hsub⟩

/-- Marks are only added, and to the node itself in any case. -/
theorem stale_touch (s : Scene R) (id : NodeId) (flags : Flags) {j : NodeId} {n' : Node R}
    (hn' : (s.touch id flags).node? j = some n') :
    ∃ n, s.node? j = some n ∧ n.stale ⊆ n'.stale ∧ (j = id → flags ⊆ n'.stale) := by
  rw [touch] at hn'
  split at hn'
  next =>
    rw [node?_schedule] at hn'
    obtain ⟨m, hm, hsub⟩ := stale_markChain flags _ _ hn'
    obtain ⟨n, hn, hsub', hself⟩ := stale_mark s id flags hm
    exact ⟨n, hn, Flags.subset_trans hsub' hsub, fun hj => Flags.subset_trans (hself hj) hsub⟩
  next hgone =>
    refine ⟨n', hn', Flags.subset_refl _, fun hj => ?_⟩
    rw [hj, node?_eq_none hgone] at hn'
    cases hn'

theorem wears_touch (s : Scene R) (id : NodeId) (flags : Flags) : Wears s (s.touch id flags) := by
  intro j n' hn'
  obtain ⟨n, hn, hsub, -⟩ := stale_touch s id flags hn'
  have hagree : Agree (fun n => (n.raw, n.caches)) s (s.touch id flags) :=
    agree_touch (fun _ _ => rfl) s id flags
  have heq := hagree.part_eq hn hn'
  simp only [Prod.mk.injEq] at heq
  exact ⟨n, hn, hsub, heq.2, .inl heq.1⟩

/-- A change of one node that is marked afterwards. -/
theorem wears_touch_of_changed (hsame : Agree (fun n => (n.stale, n.caches)) s t)
    (hraw : ∀ j, j ≠ id ∨ flags = ∅ → (t.node? j).map Node.raw = (s.node? j).map Node.raw) :
    Wears s (t.touch id flags) := by
  intro j n' hn'
  obtain ⟨m, hm, hsub, hself⟩ := stale_touch t id flags hn'
  obtain ⟨n, hn, heq⟩ := hsame.symm.node? hm
  have hagree : Agree (fun n => (n.raw, n.caches)) t (t.touch id flags) :=
    agree_touch (fun _ _ => rfl) t id flags
  have hsame' := hagree.part_eq hm hn'
  simp only [Prod.mk.injEq] at heq hsame'
  refine ⟨n, hn, heq.1 ▸ hsub, hsame'.2.trans heq.2.symm, ?_⟩
  by_cases hj : j ≠ id ∨ flags = ∅
  · have hmap := hraw j hj
    rw [hn, hm, Option.map_some, Option.map_some, Option.some.injEq] at hmap
    exact .inl (hsame'.1.trans hmap)
  · obtain ⟨hjid, hflags⟩ := not_or.1 hj
    exact .inr (Flags.ne_empty_of_subset (hself (not_not.1 hjid)) hflags)

theorem Revised.wears (h : Revised s s') : Wears s s' := by
  cases h with
  | same => exact .refl s
  | touched hrev =>
    exact wears_touch_of_changed (hrev.same.map fun part => (part.2.1, part.2.2.2)) hrev.raw

/-! ## Freeing nodes -/

theorem wears_dropReference (target : NodeId) (s : Scene R) (k : Link) :
    Wears s (dropReference target s k) := by
  have hflags : k.role.stale ≠ ∅ := by cases k.role <;> decide
  refine wears_touch_of_changed (.modify fun n _ => ?_) fun j hj => ?_
  · have hlasting := lasting_withoutTarget target k.role n
    simp only [Node.lasting, Prod.mk.injEq] at hlasting
    simp only [Node.caches, stale_withoutTarget, hlasting]
  · rw [node?_modify_of_ne s _ (hj.resolve_right hflags)]

theorem wears_free (s : Scene R) (id : NodeId) :
    Wears s { s with nodes := s.nodes.remove id } := by
  intro j n' hn'
  rw [node?_free] at hn'
  split at hn'
  · cases hn'
  · exact ⟨n', hn', Flags.subset_refl _, rfl, .inl rfl⟩

/-- Freeing a node marks its subscribers and takes no mark away. -/
theorem wears_release (s : Scene R) (id : NodeId) : Wears s (s.release id) := by
  rw [release]
  split
  · exact .refl s
  next n _ =>
    have hclear : Wears s (s.modify id fun n => { n with subscribers := [], references := [] }) :=
      .of_agree (.modify fun _ _ => rfl)
    refine ((hclear.trans (.foldl (wears_dropReference id) n.subscribers _)).trans
      (.foldl ?_ n.references _)).trans (wears_free _ id)
    exact fun s l => .of_agree (agree_unlink (fun _ _ _ => rfl) s id l.node l.role)

theorem wears_touchParent (s : Scene R) (parent : Option NodeId) :
    Wears s (s.touchParent parent) := by
  simp only [touchParent]
  cases parent with
  | none => exact .refl s
  | some p => exact wears_touch s p .membership

section

variable [Scalar R] {kind : Kind R}

/-- The parent of the removed node loses a child, and is marked for it in the end. -/
theorem edited_remove {freed : List NodeId} (hs : s.Tree) (h : s.remove id = .ok (s', freed)) :
    Edited s s' := by
  obtain ⟨-, n, hn, -, rfl⟩ := eq_of_remove_eq_ok h
  have hwears : Wears (s.cut id n) ((freed.foldl release (s.cut id n)).touchParent n.parent) :=
    (Wears.foldl wears_release freed _).trans (wears_touchParent _ _)
  have hcut := node?_cut hs hn
  refine ⟨fun j k' hk' hstale => ?_, fun j k k' hk hk' => ?_⟩
  · obtain ⟨l, hl, hsub, -, hraw⟩ := hwears hk'
    rw [hstale] at hsub hraw
    have hraw' : k'.raw = l.raw := hraw.resolve_right fun hne => hne rfl
    have hparent : n.parent ≠ some j := by
      intro hp
      rw [hp] at hk'
      obtain ⟨-, -, -, hself⟩ := stale_touch _ j .membership hk'
      have hempty := hself rfl
      rw [hstale] at hempty
      exact absurd (Flags.eq_empty_of_subset hempty) (by decide)
    rw [hcut] at hl
    obtain ⟨k, hk, rfl⟩ := Option.map_eq_some_iff.1 hl
    have hchildren : k.children.filter (fun c => c ≠ id) = k.children := by
      rw [List.filter_eq_self]
      intro c hc
      have hne : c ≠ id := fun heq => hparent <| by
        rw [← parent?_of_node? hn, (hs.mem_children_iff hk).1 (heq ▸ hc)]
      simpa using hne
    refine ⟨k, hk, Flags.eq_empty_of_subset hsub, hraw'.trans ?_⟩
    simp only [Node.raw, hchildren]
  · obtain ⟨l, hl, -, hcaches, -⟩ := hwears hk'
    rw [hcut, hk, Option.map_some] at hl
    cases hl
    exact hcaches

/-- The new node is marked, and so is its parent. -/
theorem edited_insertChild (hs : s.Sound) (hfits : (s.plant p kind).nodes.Fits) :
    Edited s (s.insertChild p kind).2 := by
  have htouch := wears_touch ((s.plant p kind).touch p .membership) (s.nextId p kind) .created
  have hwears : Wears (s.plant p kind) (s.insertChild p kind).2 :=
    (wears_touch _ p .membership).trans htouch
  have hmarked : ∀ {j n'}, (s.insertChild p kind).2.node? j = some n' →
      j = p ∨ j = s.nextId p kind → n'.stale ≠ ∅ := by
    intro j n' hn' hj
    obtain ⟨k, hk, hsub, hself⟩ := stale_touch _ (s.nextId p kind) .created hn'
    rcases hj with heq | heq
    · obtain ⟨-, -, -, hself'⟩ := stale_touch _ p .membership hk
      exact Flags.ne_empty_of_subset (Flags.subset_trans (hself' heq) hsub) (by decide)
    · exact Flags.ne_empty_of_subset (hself heq) (by decide)
  refine ⟨fun j n' hn' hstale => ?_, fun j n n' hn hn' => ?_⟩
  · have hj : ¬(j = p ∨ j = s.nextId p kind) := fun hj => hmarked hn' hj hstale
    obtain ⟨hjp, hnext⟩ := not_or.1 hj
    obtain ⟨n, hn, hsub, -, hraw⟩ := hwears hn'
    rw [hstale] at hsub hraw
    rw [node?_plant hs.valid hfits hnext, if_neg hjp] at hn
    exact ⟨n, hn, Flags.eq_empty_of_subset hsub, hraw.resolve_right fun hne => hne rfl⟩
  · obtain ⟨k, hk, -, hcaches, -⟩ := hwears hn'
    rw [node?_plant_of_node? hs.valid hfits hn] at hk
    cases hk
    exact hcaches

/-! ## Fresh scenes -/

/-- The placement that a node inherits, as of the last update. -/
def worldAbove (s : Scene R) (n : Node R) : Affine R :=
  match n.parent.bind s.node? with
  | some m => m.world
  | none => .identity

/-- The opacity that a node inherits, as of the last update. -/
def opacityAbove (s : Scene R) (n : Node R) : R :=
  match n.parent.bind s.node? with
  | some m => m.opacity
  | none => 1

/-- The node reaches no marks. -/
def Clean (s : Scene R) (id : NodeId) : Prop :=
  ∀ ⦃d m⦄, s.Reaches id d → s.node? d = some m → m.stale = ∅

/-- What is not stale is exact. -/
structure Fresh (s : Scene R) : Prop where
  world : ∀ ⦃id n⦄, s.node? id = some n → n.stale = ∅ → n.world = s.worldAbove n * n.transform
  opacity : ∀ ⦃id n⦄, s.node? id = some n → n.stale = ∅ →
    n.opacity = s.opacityAbove n * n.style.opacity
  box : ∀ ⦃id n⦄, s.node? id = some n → s.Clean id → n.box = s.computeBox id

omit [Scalar R] in
/-- A node of the scene leads to nodes of the scene. -/
theorem Sound.node?_of_leads (h : s.Sound) (hd : s.Leads id d) : ∃ m, s.node? d = some m := by
  obtain ⟨n, hn, hchild | hsource⟩ := hd
  · obtain ⟨m, hm, -⟩ := h.tree.child hn hchild
    exact ⟨m, hm⟩
  · have hheld : s.held? id .cloneSource = some d := (held?_of_node? hn).trans hsource
    obtain ⟨⟨⟨m, hm, -⟩, -⟩, -⟩ := h.linked.subscribed hn ((h.linked.holds_iff hn d _).1 hheld)
    exact ⟨m, hm⟩

omit [Scalar R] in
theorem Sound.node?_of_reaches (h : s.Sound) (hn : s.node? id = some n) (hd : s.Reaches id d) :
    ∃ m, s.node? d = some m := by
  induction hd with
  | refl => exact ⟨n, hn⟩
  | tail _ hleads _ => exact h.node?_of_leads hleads

omit [Scalar R] in
/-- The same nodes are reached in scenes that agree on them. -/
theorem SameContent.reaches (h : SameContent s s' id) (hd : s'.Reaches id d) : s.Reaches id d := by
  induction hd with
  | refl => exact .refl
  | tail _ hleads ih =>
    refine ih.tail ?_
    obtain ⟨n', hn', hleads⟩ := hleads
    rcases SameContent.cases (fun c hc => h c (ih.trans hc)) with
      ⟨-, hnone⟩ | ⟨n, m', hn, hm', hkind, -, -, hchildren⟩
    · rw [hnone] at hn'
      cases hn'
    · rw [hm'] at hn'
      cases hn'
      exact ⟨n, hn, by rw [← hkind, ← hchildren]; exact hleads⟩

/-- Parents that keep their caches hand the same down. -/
theorem above_eq_of_caches (hs : s.Tree) (hs' : s'.Tree)
    (hcaches : ∀ ⦃id n n'⦄, s.node? id = some n → s'.node? id = some n' → n'.caches = n.caches)
    (hn : s.node? id = some n) (hn' : s'.node? id = some n') (hparent : n'.parent = n.parent) :
    s'.worldAbove n' = s.worldAbove n ∧ s'.opacityAbove n' = s.opacityAbove n := by
  simp only [worldAbove, opacityAbove]
  rw [hparent]
  cases hp : n.parent with
  | none => exact ⟨rfl, rfl⟩
  | some p =>
    obtain ⟨m, hm, -⟩ := hs.node?_of_parent? ((parent?_of_node? hn).trans hp)
    obtain ⟨m', hm', -⟩ :=
      hs'.node?_of_parent? ((parent?_of_node? hn').trans (hparent.trans hp))
    have hsame := hcaches hm hm'
    simp only [Node.caches, Prod.mk.injEq] at hsame
    rw [Option.bind_some, Option.bind_some, hm, hm']
    exact ⟨hsame.1, hsame.2.2⟩

namespace Edited

omit [Scalar R] in
theorem node? (h : Edited s s') (hn' : s'.node? id = some n') (hstale : n'.stale = ∅) :
    ∃ n, s.node? id = some n ∧ n.stale = ∅ ∧ n'.raw = n.raw ∧ n'.caches = n.caches := by
  obtain ⟨n, hn, hstale', hraw⟩ := h.same hn' hstale
  exact ⟨n, hn, hstale', hraw, h.caches hn hn'⟩

variable (h : Edited s s') (hs' : s'.Sound) (hn' : s'.node? id = some n') (hclean : s'.Clean id)
include h hs' hn' hclean

omit [Scalar R] in
/-- Below a clean node is what was below it. -/
theorem sameContent : SameContent s' s id := by
  intro d hd
  obtain ⟨m', hm'⟩ := hs'.node?_of_reaches hn' hd
  obtain ⟨m, hm, -, hraw, -⟩ := h.node? hm' (hclean hd hm')
  rw [hm, hm', Option.map_some, Option.map_some]
  exact congrArg (fun raw => some (raw.1, raw.2.1, raw.2.2.1, raw.2.2.2.2.2)) hraw.symm

omit [Scalar R] in
/-- A node that is clean afterwards was so before, as marks are not taken away. -/
theorem clean : s.Clean id := by
  intro d m hd hm
  have hd' := (h.sameContent hs' hn' hclean).reaches hd
  obtain ⟨m', hm'⟩ := hs'.node?_of_reaches hn' hd'
  obtain ⟨k, hk, hstale, -⟩ := h.node? hm' (hclean hd' hm')
  rw [hm] at hk
  cases hk
  exact hstale

theorem computeBox_eq : s.computeBox id = s'.computeBox id := by
  refine computeBox_congr (h.sameContent hs' hn' hclean) ?_ fun k hk c hc => ?_
  · obtain ⟨n, hn, -, -, hcaches⟩ := h.node? hn' (hclean .refl hn')
    rw [hn, hn', Option.map_some, Option.map_some]
    exact congrArg (fun caches => some caches.1) hcaches.symm
  · have hleads : s'.Leads id c := ⟨k, hk, .inl hc⟩
    obtain ⟨m', hm'⟩ := hs'.node?_of_leads hleads
    obtain ⟨m, hm, -, -, hcaches⟩ := h.node? hm' (hclean (.single hleads) hm')
    rw [hm, hm', Option.map_some, Option.map_some]
    exact congrArg (fun caches => some caches.2.1) hcaches.symm

end Edited

/-- Caches of clean nodes stay right through an edit, since it marks whatever it changes. -/
theorem Fresh.of_edited (h : s.Fresh) (hs : s.Sound) (hs' : s'.Sound) (hedit : Edited s s') :
    s'.Fresh := by
  refine ⟨fun id n' hn' hstale => ?_, fun id n' hn' hstale => ?_, fun id n' hn' hclean => ?_⟩
  · obtain ⟨n, hn, hstale', hraw, hcaches⟩ := hedit.node? hn' hstale
    simp only [Node.raw, Node.caches, Prod.mk.injEq] at hraw hcaches
    obtain ⟨-, htransform, -, -, hparent, -⟩ := hraw
    rw [hcaches.1, h.world hn hstale', htransform,
      (above_eq_of_caches hs.tree hs'.tree hedit.caches hn hn' hparent).1]
  · obtain ⟨n, hn, hstale', hraw, hcaches⟩ := hedit.node? hn' hstale
    simp only [Node.raw, Node.caches, Prod.mk.injEq] at hraw hcaches
    obtain ⟨-, -, -, hopacity, hparent, -⟩ := hraw
    rw [hcaches.2.2, h.opacity hn hstale', hopacity,
      (above_eq_of_caches hs.tree hs'.tree hedit.caches hn hn' hparent).2]
  · obtain ⟨n, hn, -, -, hcaches⟩ := hedit.node? hn' (hclean .refl hn')
    rw [← hedit.computeBox_eq hs' hn' hclean, ← h.box hn (hedit.clean hs' hn' hclean)]
    exact (congrArg (fun caches => caches.2.1) hcaches :)

theorem Fresh.of_revised (h : s.Fresh) (hs : s.Sound) (hrev : Revised s s') : s'.Fresh :=
  h.of_edited hs (hs.of_revised hrev) hrev.wears.edited

theorem Fresh.remove {freed : List NodeId} (h : s.Fresh) (hs : s.Sound)
    (hrem : s.remove id = .ok (s', freed)) : s'.Fresh :=
  h.of_edited hs (hs.remove hrem) (edited_remove hs.tree hrem)

/-- One of the changes that commands are made of. -/
inductive Change (s : Scene R) : Scene R → Prop where
  | revised {s' : Scene R} (h : Revised s s') : Change s s'
  | inserted {p : NodeId} {m : Node R} {kind : Kind R} (hp : s.node? p = some m)
      (hgroup : m.kind.isGroup = true) (hsource : kind.source? = none) :
      Change s (s.insertChild p kind).2
  | removed {s' : Scene R} {id : NodeId} {freed : List NodeId}
      (h : s.remove id = .ok (s', freed)) : Change s s'

theorem Change.sound (h : Change s s') (hs : s.Sound) (hfits : s'.nodes.Fits) : s'.Sound := by
  cases h with
  | revised hrev => exact hs.of_revised hrev
  | inserted hp hgroup hsource =>
    exact hs.insertChild ((stays_insertChild s _ _).fits hfits) hp hgroup hsource
  | removed hrem => exact hs.remove hrem

theorem Change.edited (h : Change s s') (hs : s.Sound) (hfits : s'.nodes.Fits) : Edited s s' := by
  cases h with
  | revised hrev => exact hrev.wears.edited
  | inserted => exact edited_insertChild hs ((stays_insertChild s _ _).fits hfits)
  | removed hrem => exact edited_remove hs.tree hrem

/-- What single changes of sound scenes keep, adding a node keeps. -/
theorem Added.changes {P : Scene R → Prop} {freed : List NodeId}
    (hP : ∀ {s s' : Scene R}, s.Sound → s'.nodes.Fits → Change s s' → P s → P s')
    (hadd : Added s p kind s' freed) (hs : s.Sound) (hfits : s'.nodes.Fits) (h : P s) : P s' := by
  cases hadd with
  | refused => exact h
  | inserted hp hgroup => exact hP hs hfits (.inserted hp hgroup (source?_unlinked kind)) h
  | linked hp hgroup hlink =>
    have hinsert : Change s _ := .inserted hp hgroup (source?_unlinked kind)
    have hrev := (revised_linkClone hlink).revised
    have hfits' := hrev.stays.fits hfits
    exact hP (hinsert.sound hs hfits') hfits (.revised hrev) (hP hs hfits' hinsert h)
  | takenBack hp hgroup hremove =>
    have hinsert : Change s _ := .inserted hp hgroup (source?_unlinked kind)
    have hfits' := (stays_remove hremove).fits hfits
    exact hP (hinsert.sound hs hfits') hfits (.removed hremove) (hP hs hfits' hinsert h)

theorem Added.edits {P : Scene R → Prop} {freed : List NodeId}
    (hP : ∀ {s s' : Scene R}, s.Sound → s'.Sound → Edited s s' → P s → P s')
    (hadd : Added s p kind s' freed) (hs : s.Sound) (hfits : s'.nodes.Fits) (h : P s) : P s' :=
  hadd.changes (fun hs hfits hchange =>
    hP hs (hchange.sound hs hfits) (hchange.edited hs hfits)) hs hfits h

theorem Fresh.of_added {freed : List NodeId} (h : s.Fresh) (hs : s.Sound)
    (hadd : Added s p kind s' freed) (hfits : s'.nodes.Fits) : s'.Fresh :=
  hadd.edits (P := Fresh) (fun hs hs' hedit h => h.of_edited hs hs' hedit) hs hfits h

end

end Scene

end Freehand
