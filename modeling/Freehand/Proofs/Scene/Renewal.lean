import Freehand.Proofs.Scene.Damage
import Freehand.Proofs.Scene.Placement

/-!
# What an update repaints at most

A pass damages no more than the old and the new boxes of the nodes that it visits, and of groups
only those whose style was stale (`Tree.paints_updatePass`).

Until an update settles a node may have a box that it has neither before nor after: that of a group
with some children that are recomputed and some that are yet to be.  The other nodes are either as
before, or *renewed* (`Scene.Renewed`): a visit gives them the placement and the box that they keep.
So what covers the boxes that a node has before and after the update, and the box of the changed
node, covers all that it has meanwhile (`Proceeds.covers`).
-/

namespace Freehand

open Scene

namespace Scene

open Rect (Covers)

variable {R : Type} [Scalar R] {s s' s'' s₀ t t' t'' : Scene R} {id j x : NodeId}
  {i : Inherited R} {n n' : Node R} {area : Option (Rect R)} {flags : Flags}

/-! ## Painted boxes -/

/-- From `t` to `t'` a node changes at most once, and has news then.  All damage that is new is that
of the boxes of nodes that change, of groups only if there are news of their style. -/
structure Paints (t t' : Scene R) : Prop where
  nodes : Agree (fun n => n.kind.isGroup) t t'
  once : ∀ ⦃j n n'⦄, t.node? j = some n → t'.node? j = some n' →
    n' = n ∨ n.changed = ∅ ∧ n'.changed ≠ ∅
  damage : ∀ ⦃area⦄, Covers area t.damage →
    (∀ ⦃j n n'⦄, t.node? j = some n → t'.node? j = some n' → n' ≠ n →
      n.kind.isGroup = false ∨ n'.changed.style = true → Covers area n.box ∧ Covers area n'.box) →
    Covers area t'.damage

namespace Paints

theorem refl (t : Scene R) : Paints t t where
  nodes := .refl _ t
  once _ _ _ hn hn' := .inl (Option.some.inj (hn'.symm.trans hn))
  damage _ hdamage _ := hdamage

/-- Painting adds up, as a node with news is not changed again. -/
theorem trans (h : Paints t t') (h' : Paints t' t'') : Paints t t'' where
  nodes := h.nodes.trans h'.nodes
  once j n n'' hn hn'' := by
    obtain ⟨n', hn', -⟩ := h.nodes.node? hn
    rcases h'.once hn' hn'' with rfl | ⟨hnone, hnews⟩
    · exact h.once hn hn'
    · rcases h.once hn hn' with rfl | ⟨-, hnews'⟩
      · exact .inr ⟨hnone, hnews⟩
      · exact absurd hnone hnews'
  damage area hdamage hboxes := by
    refine h'.damage (h.damage hdamage fun j n n' hn hn' hne hpainted => ?_)
      fun j n' n'' hn' hn'' hne hpainted => ?_
    · -- A node that changed on the first way stays as it is on the second one.
      obtain ⟨n'', hn'', -⟩ := h'.nodes.node? hn'
      obtain ⟨-, hnews⟩ := (h.once hn hn').resolve_left hne
      obtain rfl : n'' = n' := (h'.once hn' hn'').resolve_right fun hboth => hnews hboth.1
      exact hboxes hn hn'' hne hpainted
    · obtain ⟨n, hn, hgroup⟩ := h.nodes.symm.node? hn'
      obtain ⟨hnone, -⟩ := (h'.once hn' hn'').resolve_left hne
      obtain rfl : n' = n := (h.once hn hn').resolve_right fun hboth => hboth.2 hnone
      exact hboxes hn hn'' hne hpainted

end Paints

section

variable (hlaw : Scalar.Ordered R)
include hlaw

/-- A visit paints the box that the node had and the one that it gets. -/
theorem paints_visit (hquiet : n.changed = ∅) (hflags : n.stale ∪ i.flags ≠ ∅)
    (hn : t.node? id = some n) (h : Paints (t.modify id fun k => k.visited (i.below n)) t')
    (hid : t'.node? id = some (n.visited (i.below n))) :
    Paints t (t'.settleBox id (n.stale ∪ i.flags)) := by
  have hself : (t'.settleBox id (n.stale ∪ i.flags)).node? id =
      some { n.visited (i.below n) with
        box := t'.computeBox id, changed := n.changed ∪ (n.stale ∪ i.flags) } := by
    rw [node?_settleBox hid, if_pos rfl]
    rfl
  have hchanged : n.changed ∪ (n.stale ∪ i.flags) = n.stale ∪ i.flags := by
    rw [hquiet]
    rfl
  rw [hchanged] at hself
  have hothers : ∀ {j}, j ≠ id → (t'.settleBox id (n.stale ∪ i.flags)).node? j = t'.node? j :=
    fun hj => by rw [node?_settleBox hid, if_neg hj]
  have hbefore : ∀ {j}, j ≠ id →
      (t.modify id fun k => k.visited (i.below n)).node? j = t.node? j :=
    fun hj => node?_modify_of_ne t _ hj
  refine ⟨?_, fun j k k' hk hk' => ?_, fun area hdamage hboxes => ?_⟩
  · have hmodify : Agree (fun n => n.kind.isGroup) t (t.modify id fun k => k.visited (i.below n)) :=
      .modify fun _ _ => rfl
    exact (hmodify.trans h.nodes).trans (agree_settleBox (fun _ _ _ _ _ _ => rfl) t' id _)
  · by_cases hj : j = id
    · subst hj
      rw [hn] at hk
      rw [hself] at hk'
      cases hk
      cases hk'
      exact .inr ⟨hquiet, hflags⟩
    · rw [hothers hj] at hk'
      exact h.once ((hbefore hj).trans hk) hk'
  · have hinside : Covers area t'.damage := by
      refine h.damage hdamage fun j k k' hk hk' hne hpainted => ?_
      by_cases hj : j = id
      · subst hj
        rw [node?_modify_self, hn, Option.map_some] at hk
        rw [hid] at hk'
        cases hk
        cases hk'
        exact absurd rfl hne
      · exact hboxes ((hbefore hj).symm.trans hk) ((hothers hj).trans hk') hne hpainted
    rw [damage_settleBox hid]
    split
    next hpaints =>
      obtain ⟨hold, hnew⟩ := hboxes hn hself
        (fun heq => hflags ((congrArg Node.changed heq).trans hquiet))
        (by simpa [Node.visited] using hpaints)
      exact hinside.join hlaw (hold.join hlaw hnew)
    · exact hinside

theorem Tree.paints_updatePass (h : s.Tree) (hquiet : ∀ j, ¬s.News j) : Paints s s.updatePass := by
  obtain ⟨m, hm, -⟩ := h.root
  refine h.updateSubtree_rel .refl .trans (fun {t t' id n i} hn hflags hn' => ?_)
    (Nat.le_add_right _ _) hm ⟨.refl _ s, fun _ _ => rfl⟩
  exact paints_visit hlaw (not_not.1 fun hne => hquiet id ⟨n, hn, hne⟩) hflags hn'

end

/-! ## Renewed nodes -/

/-- There is one way down to a node, and so one placement and one opacity composed along it. -/
theorem Composed.unique (hs : s.Tree) {w w' : Affine R} {o o' : R} (h : s.Composed id w o)
    (h' : s.Composed id w' o') : w' = w ∧ o' = o := by
  have htop : ∀ {n p}, s.node? s.root = some n → n.parent ≠ some p := by
    intro n p hn hparent
    obtain ⟨k, hk, -, hnone⟩ := hs.root
    rw [hn] at hk
    cases hk
    rw [hparent] at hnone
    cases hnone
  induction h generalizing w' o' with
  | root hn =>
    cases h' with
    | root hk =>
      rw [hn] at hk
      cases hk
      exact ⟨rfl, rfl⟩
    | child _ hk hparent => exact absurd hparent (htop hk)
  | child _ hn hparent ih =>
    cases h' with
    | root hk => exact absurd hparent (htop hn)
    | child hp hk hparent' =>
      rw [hn] at hk
      cases hk
      rw [hparent] at hparent'
      cases hparent'
      obtain ⟨rfl, rfl⟩ := ih hp
      exact ⟨rfl, rfl⟩

/-- The node has the placement that is composed from the root down, and the box that goes with
it. -/
def Renewed (s : Scene R) (id : NodeId) : Prop :=
  ∃ n, s.node? id = some n ∧ s.Composed id n.world n.opacity ∧ n.box = s.computeBox id

/-- A visit renews a node. -/
theorem Visit.renewed (h : s.Visit s.root .atRoot j i) (hs : s.Tree) : s.updatePass.Renewed j := by
  obtain ⟨n, hn, -⟩ := h.exists_node?
  refine ⟨_, hs.node?_updatePass_of_visit h hn, ?_, rfl⟩
  exact (h.composed hn).of_agree (stays_updatePass s).root.symm
    (agree_updatePass (fun _ _ _ _ _ _ => rfl) s).symm

namespace Renewed

theorem of_agree (h : s.Renewed j) (hroot : s'.root = s.root)
    (hagree : Agree (fun n => (n.raw, n.caches)) s s') : s'.Renewed j := by
  obtain ⟨n, hn, hplaced, hbox⟩ := h
  obtain ⟨n', hn', heq⟩ := hagree.node? hn
  simp only [Node.caches, Prod.mk.injEq] at heq
  obtain ⟨-, hworld, hbox', hopacity⟩ := heq
  refine ⟨n', hn', ?_, ?_⟩
  · rw [hworld, hopacity]
    exact hplaced.of_agree hroot.symm (hagree.map Prod.fst).symm
  · rw [hbox', hbox]
    exact (computeBox_congr ((hagree.map Prod.fst).sameContent j)
      (hagree.map (fun part => part.2.1) j) fun _ _ c _ =>
        hagree.map (fun part => part.2.2.1) c).symm

/-- Renewed nodes stay renewed in a pass, since it visits no children of those that it skips. -/
theorem updatePass (h : s.Renewed j) (hs : s.Tree) : s.updatePass.Renewed j := by
  by_cases hvisit : ∃ i, s.Visit s.root .atRoot j i
  · obtain ⟨i, hi⟩ := hvisit
    exact hi.renewed hs
  · obtain ⟨n, hn, hplaced, hbox⟩ := h
    have hraw : Agree Node.raw s s.updatePass := agree_updatePass (fun _ _ _ _ _ _ => rfl) s
    have hsame := hs.node?_updatePass_of_not_visit fun i hi => hvisit ⟨i, hi⟩
    refine ⟨n, hsame.trans hn, hplaced.of_agree (stays_updatePass s).root.symm hraw.symm, ?_⟩
    rw [hbox]
    refine (computeBox_congr (hraw.sameContent j) (by rw [hsame]) fun k hk c hc => ?_).symm
    rw [hs.node?_updatePass_of_not_visit fun i hi => ?_]
    have hparent := (hs.mem_children_iff hk).1 hc
    exact hvisit (hi.parent (hs.ne_root_of_parent? hparent) hparent)

theorem box_of_group (h : s.Renewed j) (hn : s.node? j = some n)
    (hgroup : n.kind.isGroup = true) : n.box = s.shownBox n.children := by
  obtain ⟨k, hk, -, hbox⟩ := h
  rw [hn] at hk
  cases hk
  rw [hbox, computeBox_of_group hn hgroup]

/-- A renewed node that is no group keeps its box as long as it is renewed. -/
theorem box_eq (h : s.Renewed j) (h' : s'.Renewed j) (hs : s.Tree) (hroot : s'.root = s.root)
    (hraw : Agree Node.raw s s') (hn : s.node? j = some n) (hn' : s'.node? j = some n')
    (hgroup : n.kind.isGroup = false) : n'.box = n.box := by
  obtain ⟨k, hk, hplaced, hbox⟩ := h
  obtain ⟨k', hk', hplaced', hbox'⟩ := h'
  rw [hn] at hk
  rw [hn'] at hk'
  cases hk
  cases hk'
  obtain ⟨hworld, -⟩ := hplaced.unique hs (hplaced'.of_agree hroot hraw)
  rw [hbox, hbox']
  refine computeBox_congr (hraw.sameContent j) ?_ fun k hk c hc => ?_
  · rw [hn, hn', Option.map_some, Option.map_some, hworld]
  · obtain ⟨p, hp, hgroup', -⟩ := hs.node?_of_parent? ((hs.mem_children_iff hk).1 hc)
    rw [hn] at hp
    cases hp
    rw [hgroup] at hgroup'
    cases hgroup'

end Renewed

/-! ## Updates that proceed -/

/-- From `s` to `s'` only boxes of nodes change that are renewed then.  They stay so. -/
structure Proceeds (s s' : Scene R) : Prop where
  root : s'.root = s.root
  raw : Agree Node.raw s s'
  sound : s.Sound → s'.Sound
  renewed : s.Sound → ∀ ⦃j⦄, s.Renewed j → s'.Renewed j
  boxes : s.Sound → ∀ ⦃j n n'⦄, s.node? j = some n → s'.node? j = some n' →
    s'.Renewed j ∨ n'.box = n.box

namespace Proceeds

theorem of_agree (hroot : s'.root = s.root) (hsound : s.Sound → s'.Sound)
    (hagree : Agree (fun n => (n.raw, n.caches)) s s') : Proceeds s s' where
  root := hroot
  raw := hagree.map Prod.fst
  sound := hsound
  renewed _ _ h := h.of_agree hroot hagree
  boxes _ _ _ _ hn hn' := by
    have heq := hagree.part_eq hn hn'
    exact .inr (congrArg (fun part => part.2.2.1) heq)

theorem of_nodes_eq (hnodes : s'.nodes = s.nodes) (hroot : s'.root = s.root) : Proceeds s s' :=
  .of_agree hroot (fun hs => hs.of_nodes_eq hnodes hroot)
    (.of_node?_eq fun id => by rw [node?, node?, hnodes])

theorem refl (s : Scene R) : Proceeds s s :=
  .of_nodes_eq rfl rfl

theorem trans (h : Proceeds s s') (h' : Proceeds s' s'') : Proceeds s s'' where
  root := h'.root.trans h.root
  raw := h.raw.trans h'.raw
  sound hs := h'.sound (h.sound hs)
  renewed hs _ hj := h'.renewed (h.sound hs) (h.renewed hs hj)
  boxes hs j n n'' hn hn'' := by
    obtain ⟨n', hn', -⟩ := h.raw.node? hn
    rcases h'.boxes (h.sound hs) hn' hn'' with hrenewed | hsame
    · exact .inl hrenewed
    · exact (h.boxes hs hn hn').imp (fun hrenewed => h'.renewed (h.sound hs) hrenewed) hsame.trans

theorem touch (s : Scene R) (id : NodeId) (flags : Flags) : Proceeds s (s.touch id flags) :=
  .of_agree (root_touch s id flags) (fun hs => hs.touch id flags)
    (agree_touch (fun _ _ => rfl) s id flags)

theorem hush (s : Scene R) (id : NodeId) : Proceeds s (s.hush id) :=
  .of_agree rfl (fun hs => hs.hush id) (agree_hush (fun _ _ => rfl) s id)

theorem updatePass (s : Scene R) : Proceeds s s.updatePass where
  root := (stays_updatePass s).root
  raw := agree_updatePass (fun _ _ _ _ _ _ => rfl) s
  sound hs := hs.updatePass
  renewed hs _ hj := hj.updatePass hs.tree
  boxes hs j n n' hn hn' := by
    by_cases hvisit : ∃ i, s.Visit s.root .atRoot j i
    · obtain ⟨i, hi⟩ := hvisit
      exact .inl (hi.renewed hs.tree)
    · rw [hs.tree.node?_updatePass_of_not_visit fun i hi => hvisit ⟨i, hi⟩, hn] at hn'
      cases hn'
      exact .inr rfl

end Proceeds

/-! ## Repainting on the way -/

namespace RevisedAt

omit [Scalar R]

variable (h : RevisedAt s x flags s')
include h

theorem place : Agree Node.place s s' := by
  cases h with
  | same => exact .refl _ s
  | touched hrev => exact (hrev.same.map Prod.fst).trans (agree_touch (fun _ _ => rfl) _ _ _)

/-- Other nodes keep what was set of them. -/
theorem raw_eq (hj : j ≠ x) (hn : s.node? j = some n) (hn' : s'.node? j = some n') :
    n'.raw = n.raw := by
  cases h with
  | same =>
    rw [hn] at hn'
    cases hn'
    rfl
  | @touched t hrev =>
    have htouch : Agree Node.raw t (t.touch x flags) := agree_touch (fun _ _ => rfl) t x flags
    have hraw := (htouch j).trans (hrev.raw j (.inl hj))
    rw [hn, hn', Option.map_some, Option.map_some] at hraw
    exact Option.some.inj hraw

/-- What is marked is the node and what is above it. -/
theorem stale_eq (hs : s.Sound) (hn : s.node? j = some n) (hn' : s'.node? j = some n') :
    n'.stale = n.stale ∨ s.Above j x ∧ n'.stale = n.stale ∪ flags := by
  cases h with
  | same =>
    rw [hn] at hn'
    cases hn'
    exact .inl rfl
  | @touched t hrev =>
    have ht := hs.revision hrev
    obtain ⟨k, hk, heq⟩ := hrev.same.node? hn
    have hstale : k.stale = n.stale := congrArg (fun part => part.2.1) heq
    have habove : t.Above j x ↔ s.Above j x :=
      above_iff_of_agree (hrev.same.map fun part => part.1.2.1)
    by_cases hup : t.Above j x
    · rw [ht.rising.node?_touch_of_above ht.tree.grounded hup, hk] at hn'
      cases hn'
      exact .inr ⟨habove.1 hup, congrArg (· ∪ flags) hstale⟩
    · rw [ht.rising.node?_touch_of_not_above ht.tree.grounded hup, hk] at hn'
      cases hn'
      exact .inl hstale

end RevisedAt

section

variable (hlaw : Scalar.Ordered R) (hs₀ : s₀.Sound) (henclosing : s₀.Enclosing)
  (hclean : ∀ ⦃id n⦄, s₀.node? id = some n → n.stale = ∅) (hrev : RevisedAt s₀ x flags s)
  (hx : ∀ n, s₀.node? x = some n → Covers area n.box) (h : Proceeds s t)
include hlaw hs₀ henclosing hclean hrev hx h

/-- The box of a node on the way is covered by what covers the box that it has before, the one that
it has in the end and the one that the changed node has before.  For a group this holds since the
boxes of its children are covered, those that it shows. -/
theorem Proceeds.covers (h' : Proceeds t t') :
    ∀ {levels : Nat} {j : NodeId} {n₀ n n' : Node R}, s₀.nodes.slots.size ≤ levels + s₀.depth j →
      s₀.node? j = some n₀ → t.node? j = some n → t'.node? j = some n' →
      Covers area n₀.box → Covers area n'.box → Covers area n.box := by
  have hs := hs₀.of_revised hrev.revised
  have ht := h.sound hs
  have hparents : Agree Node.parent s₀ t :=
    (hrev.place.map fun place => place.2.1).trans (h.raw.map fun raw => raw.2.2.2.2.1)
  intro levels
  induction levels with
  | zero =>
    intro j n₀ n n' hlevels hn₀
    have := hs₀.tree.depth_lt hn₀
    omega
  | succ levels ih =>
    intro j n₀ n n' hlevels hn₀ hn hn' hold hnew
    obtain ⟨k, hk, -⟩ := h.raw.symm.node? hn
    rcases h.boxes hs hk hn with hrenewed | hsame
    · have hrenewed' := h'.renewed ht hrenewed
      cases hgroup : n.kind.isGroup with
      | false => rwa [← hrenewed.box_eq hrenewed' ht.tree h'.root h'.raw hn hn' hgroup]
      | true =>
        have heq := h'.raw.part_eq hn hn'
        simp only [Node.raw, Prod.mk.injEq] at heq
        rw [hrenewed.box_of_group hn hgroup]
        rw [hrenewed'.box_of_group hn' (heq.1 ▸ hgroup), heq.2.2.2.2.2] at hnew
        refine covers_of_shown hlaw fun c hc m hm hshown => ?_
        have hparent : s₀.parent? c = some j :=
          (parent?_eq_of_agree hparents c).symm.trans ((ht.tree.mem_children_iff hn).1 hc)
        obtain ⟨m₀, hm₀, hmparent⟩ := parent?_eq_some_iff.1 hparent
        obtain ⟨m', hm', heq'⟩ := h'.raw.node? hm
        have hdepth := hs₀.tree.grounded.depth_of_parent? hparent
        refine ih (by omega) hm₀ hm hm' ?_ (hnew.trans hlaw (covers_shownBox hlaw hc hm' ?_))
        · by_cases hcx : c = x
          · subst hcx
            exact hx m₀ hm₀
          · obtain ⟨l, hl, hlraw⟩ := h.raw.symm.node? hm
            have hraw := hlraw.symm.trans (hrev.raw_eq hcx hm₀ hl)
            have hshown₀ : m₀.hidden = false :=
              (congrArg (fun raw => raw.2.2.1) hraw).symm.trans hshown
            exact hold.trans hlaw (henclosing hm₀ hmparent hn₀ hshown₀ (by rw [hclean hm₀]; rfl))
        · exact (congrArg (fun raw => raw.2.2.1) heq').trans hshown
    · obtain ⟨k₀, hk₀, -⟩ := hrev.place.symm.node? hk
      rw [hn₀] at hk₀
      cases hk₀
      have hcaches := hrev.revised.wears.edited.caches hn₀ hk
      rw [hsame.trans (congrArg (fun caches => caches.2.1) hcaches)]
      exact hold

/-- A pass damages no more than what covers the boxes, before and in the end, of the nodes that it
visits.  Groups count only if their style is stale. -/
theorem Proceeds.covers_damage (h' : Proceeds t.updatePass t') (hquiet : ∀ j, ¬t.News j)
    (hdamage : Covers area t.damage)
    (hpainted : ∀ ⦃j i n⦄, t.Visit t.root .atRoot j i → t.node? j = some n →
      n.kind.isGroup = false ∨ (n.stale ∪ i.flags).style = true →
      (∀ n₀, s₀.node? j = some n₀ → Covers area n₀.box) ∧
      ∀ n', t'.node? j = some n' → Covers area n'.box) :
    Covers area t.updatePass.damage := by
  have ht := h.sound (hs₀.of_revised hrev.revised)
  have hpass := Proceeds.updatePass t
  refine (ht.tree.paints_updatePass hlaw hquiet).damage hdamage fun j n p hn hp hne hpaints => ?_
  have hvisit : ∃ i, t.Visit t.root .atRoot j i := by
    by_contra hskip
    rw [ht.tree.node?_updatePass_of_not_visit fun i hi => hskip ⟨i, hi⟩, hn] at hp
    exact hne (Option.some.inj hp).symm
  obtain ⟨i, hi⟩ := hvisit
  have hchanged : p.changed = n.stale ∪ i.flags := by
    have hnone : n.changed = ∅ := not_not.1 fun hnews => hquiet j ⟨n, hn, hnews⟩
    rw [ht.tree.node?_updatePass_of_visit hi hn] at hp
    cases hp
    show n.changed ∪ (n.stale ∪ i.flags) = _
    rw [hnone]
    rfl
  obtain ⟨hold, hnew⟩ := hpainted hi hn (hchanged ▸ hpaints)
  obtain ⟨k, hk, -⟩ := h.raw.symm.node? hn
  obtain ⟨n₀, hn₀, -⟩ := hrev.place.symm.node? hk
  obtain ⟨n', hn', -⟩ := h'.raw.node? hp
  have hlevels := Nat.le_add_right s₀.nodes.slots.size (s₀.depth j)
  exact ⟨h.covers hlaw hs₀ henclosing hclean hrev hx (hpass.trans h') hlevels hn₀ hn hn'
      (hold n₀ hn₀) (hnew n' hn'),
    (h.trans hpass).covers hlaw hs₀ henclosing hclean hrev hx h' hlevels hn₀ hp hn' (hold n₀ hn₀)
      (hnew n' hn')⟩

end

theorem cumulative_proceeds : Cumulative (Proceeds (R := R)) :=
  ⟨.refl, .trans, .of_nodes_eq⟩

end Scene

/-! ## Observers that leave the scene alone -/

namespace Listener.Passive

open Stage

variable {R ω : Type} [Scalar R] {l : Listener R ω}

/-- After it recomputed what was stale, a pass moves neither boxes nor damage. -/
theorem proceeds_told (hl : l.Passive) (st : Stage R ω) :
    Proceeds st.scene.updatePass (pass l st).scene ∧
      (pass l st).scene.damage = st.scene.updatePass.damage := by
  have hwalk : Proceeds st.scene.updatePass
        (notifyPass l { st with scene := st.scene.updatePass }).scene ∧
      (notifyPass l { st with scene := st.scene.updatePass }).scene.damage =
        st.scene.updatePass.damage :=
    hl.rel_notifySubtree (fun s s' => Proceeds s s' ∧ s'.damage = s.damage)
      (fun s => ⟨.refl s, rfl⟩) (fun h h' => ⟨h.1.trans h'.1, h'.2.trans h.2⟩)
      (fun s id flags => ⟨.touch s id flags, (prompts_touch s id flags).damage⟩)
      (fun s id => ⟨.hush s id, rfl⟩) st.scene.updatePass.nodes.slots.size
      st.scene.updatePass.root { st with scene := st.scene.updatePass }
  simp only [Stage.pass, scene_dispatch hl.completed]
  exact ⟨hwalk.1.trans (.of_nodes_eq rfl rfl), hwalk.2⟩

theorem proceeds_pass (hl : l.Passive) (st : Stage R ω) :
    Proceeds st.scene (pass l st).scene :=
  (Proceeds.updatePass st.scene).trans (hl.proceeds_told st).1

end Listener.Passive

end Freehand
