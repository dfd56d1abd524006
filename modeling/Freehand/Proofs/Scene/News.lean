import Freehand.Proofs.Scene.Membership
import Freehand.Proofs.Scene.Pass

/-!
# What observers have yet to be told

A pass leaves news on the nodes that it visited, and the walk that follows tells them, parents
cleared before children.  Observers may change the scene on the way, even let it settle again inside
the walk.  None of that adds news outside such an inner update, moves a node that has news, or takes
the news from a parent but not from its child (`Scene.Quiets`).

`Scene.Evolves` is what every change does to a scene: it keeps it sound as long as words of 32 bits
name the slots, and it quiets.
-/

namespace Freehand.Scene

variable {R : Type} {s s' s'' : Scene R} {id j p : NodeId}

/-- Observers have yet to be told something about the node. -/
def News (s : Scene R) (j : NodeId) : Prop :=
  ∃ n, s.node? j = some n ∧ n.changed ≠ ∅

/-- There are no new news, and nodes with news stay where they are. -/
def Fades (s s' : Scene R) : Prop :=
  ∀ ⦃j⦄, s'.News j → s.News j ∧ s'.parent? j = s.parent? j

/-- News fade, and not on a parent while they stay on its child. -/
structure Quiets (s s' : Scene R) : Prop where
  fades : Fades s s'
  upward : ∀ ⦃j p⦄, s'.News j → s.parent? j = some p → s.News p → s'.News p

theorem Fades.trans (h : Fades s s') (h' : Fades s' s'') : Fades s s'' := by
  intro j hj
  obtain ⟨hj', hparent'⟩ := h' hj
  obtain ⟨hj'', hparent⟩ := h hj'
  exact ⟨hj'', hparent'.trans hparent⟩

namespace Quiets

theorem refl (s : Scene R) : Quiets s s :=
  ⟨fun _ h => ⟨h, rfl⟩, fun _ _ _ _ h => h⟩

theorem trans (h : Quiets s s') (h' : Quiets s' s'') : Quiets s s'' := by
  refine ⟨h.fades.trans h'.fades, fun j p hj hp hnews => ?_⟩
  obtain ⟨hj', -⟩ := h'.fades hj
  obtain ⟨-, hparent⟩ := h.fades hj'
  exact h'.upward hj (hparent.trans hp) (h.upward hj' hp hnews)

/-- The nodes that are left keep their parents and their news, and those above them are left too. -/
theorem of_kept (hkept : ∀ ⦃j n'⦄, s'.node? j = some n' → n'.changed ≠ ∅ →
      ∃ n, s.node? j = some n ∧ n'.changed = n.changed ∧ n'.parent = n.parent)
    (hleft : ∀ ⦃j p m⦄, s'.News j → s.parent? j = some p → s.node? p = some m →
      ∃ m', s'.node? p = some m' ∧ m'.changed = m.changed) : Quiets s s' := by
  refine ⟨fun j hj => ?_, fun j p hj hp hnews => ?_⟩
  · obtain ⟨n', hn', hchanged⟩ := hj
    obtain ⟨n, hn, hsame, hparent⟩ := hkept hn' hchanged
    refine ⟨⟨n, hn, hsame ▸ hchanged⟩, ?_⟩
    rw [parent?_of_node? hn', parent?_of_node? hn, hparent]
  · obtain ⟨m, hm, hchanged⟩ := hnews
    obtain ⟨m', hm', hsame⟩ := hleft hj hp hm
    exact ⟨m', hm', hsame ▸ hchanged⟩

theorem of_agree (h : Agree (fun n => (n.parent, n.changed)) s s') : Quiets s s' := by
  refine .of_kept (fun j n' hn' _ => ?_) fun j p m _ _ hm => ?_
  · obtain ⟨n, hn, heq⟩ := h.symm.node? hn'
    simp only [Prod.mk.injEq] at heq
    exact ⟨n, hn, heq.2.symm, heq.1.symm⟩
  · obtain ⟨m', hm', heq⟩ := h.node? hm
    exact ⟨m', hm', congrArg Prod.snd heq⟩

end Quiets

/-! ## Scenes that evolve -/

/-- What every change does to a scene. -/
structure Evolves (s s' : Scene R) : Prop where
  /-- Slots are never lost. -/
  slots : s.nodes.slots.size ≤ s'.nodes.slots.size
  sound : s'.nodes.Fits → s.Sound → s'.Sound
  quiets : s'.nodes.Fits → s.Sound → Quiets s s'

namespace Evolves

theorem refl (s : Scene R) : Evolves s s :=
  ⟨Nat.le_refl _, fun _ h => h, fun _ _ => .refl s⟩

theorem fits (h : Evolves s s') (hfits : s'.nodes.Fits) : s.nodes.Fits :=
  Nat.le_trans h.slots hfits

theorem trans (h : Evolves s s') (h' : Evolves s' s'') : Evolves s s'' where
  slots := Nat.le_trans h.slots h'.slots
  sound hfits hs := h'.sound hfits (h.sound (h'.fits hfits) hs)
  quiets hfits hs :=
    (h.quiets (h'.fits hfits) hs).trans (h'.quiets hfits (h.sound (h'.fits hfits) hs))

end Evolves

/-- An edit makes no news, and moves no node. -/
theorem Revised.agree_news (h : Revised s s') :
    Agree (fun n => (n.parent, n.changed)) s s' := by
  cases h with
  | same => exact .refl _ s
  | @touched t id flags hrev =>
    exact (hrev.same.map fun part => (part.1.2.1, part.2.2.1)).trans
      (agree_touch (fun _ _ => rfl) t id flags)

theorem Revised.evolves (h : Revised s s') : Evolves s s' where
  slots := Nat.le_of_eq h.stays.slots.symm
  sound _ hs := hs.of_revised h
  quiets _ _ := .of_agree h.agree_news

theorem evolves_touch (s : Scene R) (id : NodeId) (flags : Flags) :
    Evolves s (s.touch id flags) where
  slots := Nat.le_of_eq (stays_touch s id flags).slots.symm
  sound _ hs := hs.touch id flags
  quiets _ _ := .of_agree (agree_touch (fun _ _ => rfl) s id flags)

theorem Sound.of_nodes_eq (h : s.Sound) (hnodes : s'.nodes = s.nodes) (hroot : s'.root = s.root) :
    s'.Sound := by
  have hnode : ∀ id, s'.node? id = s.node? id := fun id => by rw [node?, node?, hnodes]
  have hparent : ∀ c p, s'.parent? c = some p → s.parent? c = some p := fun c p hp => by
    rwa [parent?, hnode] at hp
  refine ⟨?_, h.tree.of_agree hroot (.of_node?_eq hnode),
    h.linked.of_agree (.of_node?_eq hnode) hparent, h.rising.of_agree (.of_node?_eq hnode)⟩
  rw [hnodes]
  exact h.valid

theorem evolves_of_nodes_eq (hnodes : s'.nodes = s.nodes)
    (hroot : s'.root = s.root) : Evolves s s' where
  slots := Nat.le_of_eq (by rw [hnodes])
  sound _ hs := hs.of_nodes_eq hnodes hroot
  quiets _ _ := .of_agree (.of_node?_eq fun id => by rw [node?, node?, hnodes])

/-- The scene is clean everywhere once the root is. -/
theorem Sound.stale_of_not_isDirty (h : s.Sound) (hclean : s.isDirty = false) :
    ∀ {id : NodeId} {n : Node R}, s.node? id = some n → n.stale = ∅ := by
  intro id
  induction id using h.tree.grounded.induction with
  | _ id ih =>
    intro n hn
    by_cases hid : id = s.root
    · rw [hid] at hn
      rw [isDirty, hn, Option.any_some, Node.isDirty, Bool.not_eq_false',
        Flags.isEmpty_iff] at hclean
      exact Flags.eq_empty_of_subset (hclean ▸ Flags.subset_union_left n.stale n.changed)
    · obtain ⟨p, m, hp, hm, -⟩ := h.tree.parent hn hid
      have hsub := h.rising hn hp hm
      rw [ih p ((parent?_of_node? hn).trans hp) hm] at hsub
      exact Flags.eq_empty_of_subset hsub

section

variable [Scalar R] {kind : Kind R} {freed : List NodeId}

/-- A removal evolves a scene, and makes no news. -/
theorem evolves_remove (h : s.remove id = .ok (s', freed)) : Evolves s s' where
  slots := Nat.le_of_eq (stays_remove h).slots.symm
  sound _ hs := hs.remove h
  quiets _ hs := by
    have hleft : ∀ {j n}, s.node? j = some n → ¬s.Above id j →
        ∃ n', s'.node? j = some n' ∧ n'.changed = n.changed ∧ n'.parent = n.parent := by
      intro j n hn hup
      obtain ⟨n', hn', heq⟩ := node?_remove_of_not_above hs.tree h hup hn
      simp only [Node.lasting, Node.place, Prod.mk.injEq] at heq
      exact ⟨n', hn', heq.2.2.1, heq.1.2.1⟩
    refine .of_kept (fun j n' hn' _ => ?_) fun j p m hj hp hm => ?_
    · obtain ⟨hup, n, hn⟩ := node?_of_remove hs.tree h hn'
      obtain ⟨k, hk, hchanged, hparent⟩ := hleft hn hup
      rw [hn'] at hk
      cases hk
      exact ⟨n, hn, hchanged, hparent⟩
    · obtain ⟨n', hn', -⟩ := hj
      obtain ⟨hup, -⟩ := node?_of_remove hs.tree h hn'
      obtain ⟨m', hm', hchanged, -⟩ := hleft hm fun hup' => hup (.of_parent? hp hup')
      exact ⟨m', hm', hchanged⟩

theorem quiets_plant {m : Node R} (hs : s.Sound) (hfits : (s.plant p kind).nodes.Fits)
    (hp : s.node? p = some m) : Quiets s (s.plant p kind) := by
  refine .of_kept (fun j n' hn' hchanged => ?_) fun j q l _ _ hl => ?_
  · rcases node?_plant_cases hs.valid hfits hp hn' with ⟨rfl, rfl⟩ | ⟨n, hn, rfl⟩
    · exact absurd rfl hchanged
    · exact ⟨n, hn, rfl, rfl⟩
  · exact ⟨_, node?_plant_of_node? hs.valid hfits hl, rfl⟩

/-- Neither does a new node, as there are no news of it. -/
theorem evolves_insertChild {m : Node R} (hp : s.node? p = some m)
    (hgroup : m.kind.isGroup = true) (hsource : kind.source? = none) :
    Evolves s (s.insertChild p kind).2 where
  slots := by
    rw [(stays_insertChild s p kind).slots, size_slots_plant]
    exact Arena.size_slots_le_insert _ _
  sound hfits hs := hs.insertChild ((stays_insertChild s p kind).fits hfits) hp hgroup hsource
  quiets hfits hs := by
    have hmarks : Agree (fun n => (n.parent, n.changed)) (s.plant p kind)
        (s.insertChild p kind).2 := agree_insertChild (fun _ _ => rfl) s p kind
    exact (quiets_plant hs ((stays_insertChild s p kind).fits hfits) hp).trans (.of_agree hmarks)

/-- Adding a node evolves a scene, however it goes. -/
theorem Added.evolves (h : Added s p kind s' freed) : Evolves s s' := by
  cases h with
  | refused => exact .refl s
  | inserted hp hgroup => exact evolves_insertChild hp hgroup (source?_unlinked kind)
  | linked hp hgroup hlink =>
    exact (evolves_insertChild hp hgroup (source?_unlinked kind)).trans
      (revised_linkClone hlink).revised.evolves
  | takenBack hp hgroup hremove =>
    exact (evolves_insertChild hp hgroup (source?_unlinked kind)).trans (evolves_remove hremove)

/-! ## Passes -/

/-- Every stale node is visited: what is above it is stale too. -/
theorem Sound.exists_visit (h : s.Sound) :
    ∀ {j : NodeId} {n : Node R}, s.node? j = some n → n.stale ≠ ∅ →
      ∃ i, s.Visit s.root .atRoot j i := by
  intro j
  induction j using h.tree.grounded.induction with
  | _ j ih =>
    intro n hn hstale
    have hunion : ∀ i : Inherited R, n.stale ∪ i.flags ≠ ∅ := fun i =>
      Flags.ne_empty_of_subset (Flags.subset_union_left _ _) hstale
    by_cases hj : j = s.root
    · subst hj
      exact ⟨.atRoot, .top hn (hunion _)⟩
    · obtain ⟨p, m, hp, hm, -⟩ := h.tree.parent hn hj
      obtain ⟨i, hvisit⟩ := ih p ((parent?_of_node? hn).trans hp) hm
        (Flags.ne_empty_of_subset (h.rising hn hp hm) hstale)
      exact ⟨i.below m, .child hvisit hm hn hp (hunion _)⟩

/-- A pass leaves nothing stale. -/
theorem Sound.stale_updatePass (h : s.Sound) {n : Node R} (hn : s.updatePass.node? j = some n) :
    n.stale = ∅ := by
  rcases h.tree.node?_updatePass_cases hn with ⟨i, m, -, -, rfl⟩ | ⟨hskip, hm⟩
  · rfl
  · by_contra hstale
    obtain ⟨i, hi⟩ := h.exists_visit hm hstale
    exact hskip i hi

theorem stays_updatePass (s : Scene R) : Stays s s.updatePass :=
  stays_updateSubtree _ _ _ s

theorem agree_updatePass {β : Type} {part : Node R → β} (h : Uncached part) (s : Scene R) :
    Agree part s s.updatePass :=
  agree_updateSubtree h _ _ _ s

/-- A pass keeps a scene sound. -/
theorem Sound.updatePass (h : s.Sound) : s.updatePass.Sound where
  valid := (stays_updatePass s).valid h.valid
  tree := h.tree.of_agree (stays_updatePass s).root (agree_updatePass (fun _ _ _ _ _ _ => rfl) s)
  linked := h.linked.of_agree (agree_updatePass (fun _ _ _ _ _ _ => rfl) s) fun c p hp => by
    rwa [parent?_eq_of_agree (agree_updatePass (fun _ _ _ _ _ _ => rfl) s)] at hp
  rising := by
    intro j n p m hn _ _
    rw [h.stale_updatePass hn]
    exact Flags.empty_subset _

/-- A pass leaves news on the nodes that it visits, and keeps those that were there. -/
theorem Tree.news_updatePass_iff (h : s.Tree) :
    s.updatePass.News j ↔ s.News j ∨ ∃ i, s.Visit s.root .atRoot j i := by
  have hagree : Agree Node.raw s s.updatePass := agree_updatePass (fun _ _ _ _ _ _ => rfl) s
  by_cases hvisit : ∃ i, s.Visit s.root .atRoot j i
  · obtain ⟨i, hi⟩ := hvisit
    refine iff_of_true ?_ (.inr ⟨i, hi⟩)
    obtain ⟨n, hn, hflags⟩ := hi.exists_node?
    exact ⟨_, h.node?_updatePass_of_visit hi hn,
      Flags.ne_empty_of_subset (Flags.subset_union_right _ _) hflags⟩
  · rw [News, h.node?_updatePass_of_not_visit fun i hi => hvisit ⟨i, hi⟩]
    simp [News, hvisit]

end

end Freehand.Scene
