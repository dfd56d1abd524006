import Freehand.Proofs.Geometry.Cover
import Freehand.Proofs.Scene.Course

/-!
# What a pass damages

A pass damages the old and the new box of every node that it changes and that is no group, and the
old box of every group whose style was stale (`Tree.repainted_updatePass`).  That suffices for
groups since they enclose what they show: the box of a group covers the boxes of its children, apart
from those that are hidden and those that were shown or hidden since the last pass
(`Scene.Enclosing`).
-/

namespace Freehand.Scene

open Rect (Covers)

variable {R ω : Type} [Scalar R] {s s' t t' t'' : Scene R} {id c d j p : NodeId}
  {i : Inherited R} {n m : Node R} {flags : Flags}

/-! ## A pass node by node -/

variable {rel : Scene R → Scene R → Prop}

/-- What holds of the visit of each child holds of all of them, one after the other. -/
theorem Tree.foldl_rel (h : s.Tree) (hrefl : ∀ t, rel t t)
    (htrans : ∀ {t t' t''}, rel t t' → rel t' t'' → rel t t'') {f : Scene R → NodeId → Scene R}
    (hraw : ∀ t c, Agree Node.raw t (f t c)) :
    ∀ {cs : List NodeId} {t : Scene R}, cs.Nodup → (∀ c ∈ cs, s.parent? c = some id) →
      (∀ c ∈ cs, ∀ t, Awaits s t c → Renews s t (f t c) c i ∧ rel t (f t c)) →
      (∀ c ∈ cs, Awaits s t c) → rel t (cs.foldl f t) := by
  intro cs
  induction cs with
  | nil => exact fun _ _ _ _ => hrefl _
  | cons c cs ih =>
    intro t hnodup hparent hf hawaits
    obtain ⟨hnot, hnodup'⟩ := List.nodup_cons.1 hnodup
    obtain ⟨hrenews, hfirst⟩ := hf c List.mem_cons_self t (hawaits c List.mem_cons_self)
    refine htrans hfirst (ih hnodup' (fun d hd => hparent d (List.mem_cons_of_mem c hd))
      (fun d hd => hf d (List.mem_cons_of_mem c hd)) fun d hd => ?_)
    exact (hawaits d (List.mem_cons_of_mem c hd)).of_renews h (hparent c List.mem_cons_self)
      (hparent d (List.mem_cons_of_mem c hd)) (fun heq => hnot (heq ▸ hd)) (hraw t c) hrenews

/-- What holds from before a node is visited until after its box is settled, if it holds from when
its children are visited until they are, holds of the whole pass. -/
theorem Tree.updateSubtree_rel (h : s.Tree) (hrefl : ∀ t, rel t t)
    (htrans : ∀ {t t' t''}, rel t t' → rel t' t'' → rel t t'')
    (hvisit : ∀ {t t' : Scene R} {id : NodeId} {n : Node R} {i : Inherited R},
      s.node? id = some n → n.stale ∪ i.flags ≠ ∅ → t.node? id = some n →
      rel (t.modify id fun k => k.visited (i.below n)) t' →
      t'.node? id = some (n.visited (i.below n)) →
      rel t (t'.settleBox id (n.stale ∪ i.flags))) :
    ∀ {levels : Nat} {i : Inherited R} {id : NodeId} {n : Node R} {t : Scene R},
      s.nodes.slots.size ≤ levels + s.depth id → s.node? id = some n → Awaits s t id →
      rel t (updateSubtree levels i id t) := by
  intro levels
  induction levels with
  | zero => exact fun _ _ _ => hrefl _
  | succ levels ih =>
    intro i id n t hlevels hn ht
    have hid := ht.same id (.refl s id)
    rw [Scene.updateSubtree]
    rw [hid, hn]
    dsimp only
    split
    · exact hrefl t
    next hflags =>
      have hchildren : ∀ c ∈ n.children, s.parent? c = some id := fun c hc =>
        (h.mem_children_iff hn).1 hc
      have hself : ∀ c ∈ n.children, ¬s.Above c id := fun c hc =>
        h.grounded.not_above_parent (hchildren c hc)
      have hsub : ∀ t c, Agree Node.raw t (updateSubtree levels (i.below n) c t) := fun t c =>
        agree_updateSubtree (fun _ _ _ _ _ _ => rfl) levels (i.below n) c t
      have hlevels' : ∀ c ∈ n.children, s.nodes.slots.size ≤ levels + s.depth c := by
        intro c hc
        have := h.grounded.depth_of_parent? (hchildren c hc)
        omega
      have hrenews : ∀ c ∈ n.children, ∀ t, Awaits s t c →
          Renews s t (updateSubtree levels (i.below n) c t) c (i.below n) := by
        intro c hc t ht
        obtain ⟨m, hm, -⟩ := h.child hn hc
        exact h.renews_updateSubtree (hlevels' c hc) hm ht
      have hawaits : ∀ c ∈ n.children, Awaits s (t.modify id fun k => k.visited (i.below n)) c :=
        fun c hc => ht.child h (hchildren c hc) _
      refine hvisit hn (fun heq => hflags (Flags.isEmpty_iff.2 heq)) (hid.trans hn)
        (h.foldl_rel (i := i.below n) hrefl htrans hsub (h.nodup_children hn) hchildren
          (fun c hc t ht => ?_) hawaits) ?_
      · obtain ⟨m, hm, -⟩ := h.child hn hc
        exact ⟨hrenews c hc t ht, ih (hlevels' c hc) hm ht⟩
      · obtain ⟨hout, -⟩ := h.foldl_renews hsub (h.nodup_children hn) hchildren hrenews hawaits
        refine (hout id hself).trans ?_
        rw [node?_modify_self, hid, hn, Option.map_some]

/-! ## Damaged boxes -/

/-- From `t` to `t'` damage grows.  Nodes that are no groups change only if their boxes are damaged,
and of nodes whose style is stale the box they had is damaged before that is over. -/
structure Repainted (t t' : Scene R) : Prop where
  nodes : Agree (fun n => n.kind.isGroup) t t'
  damage : Covers t'.damage t.damage
  changed : ∀ ⦃j n n'⦄, t.node? j = some n → t'.node? j = some n' → n.kind.isGroup = false →
    n' = n ∨ Covers t'.damage n.box ∧ Covers t'.damage n'.box
  restyled : ∀ ⦃j n n'⦄, t.node? j = some n → t'.node? j = some n' → n.stale.style = true →
    (n'.stale.style = true ∧ n'.box = n.box) ∨ Covers t'.damage n.box

variable (hlaw : Scalar.Ordered R)
include hlaw

namespace Repainted

theorem refl (t : Scene R) : Repainted t t where
  nodes := .refl _ t
  damage := .refl hlaw _
  changed j n n' hn hn' _ := .inl (Option.some.inj (hn'.symm.trans hn))
  restyled j n n' hn hn' hstyle := by
    rw [hn] at hn'
    cases hn'
    exact .inl ⟨hstyle, rfl⟩

/-- Repaints add up. -/
theorem trans (h : Repainted t t') (h' : Repainted t' t'') : Repainted t t'' where
  nodes := h.nodes.trans h'.nodes
  damage := h'.damage.trans hlaw h.damage
  changed j n n'' hn hn'' hgroup := by
    obtain ⟨n', hn', hgroup'⟩ := h.nodes.node? hn
    rcases h.changed hn hn' hgroup with rfl | ⟨hold, hnew⟩
    · exact h'.changed hn' hn'' hgroup
    · have hold' := h'.damage.trans hlaw hold
      rcases h'.changed hn' hn'' (hgroup'.trans hgroup) with rfl | ⟨-, hnew'⟩
      · exact .inr ⟨hold', h'.damage.trans hlaw hnew⟩
      · exact .inr ⟨hold', hnew'⟩
  restyled j n n'' hn hn'' hstyle := by
    obtain ⟨n', hn', -⟩ := h.nodes.node? hn
    rcases h.restyled hn hn' hstyle with ⟨hstyle', hbox⟩ | hold
    · rw [← hbox]
      exact h'.restyled hn' hn'' hstyle'
    · exact .inr (h'.damage.trans hlaw hold)

end Repainted

omit hlaw in
theorem damage_settleBox (hn : s.node? id = some n) (flags : Flags) :
    (s.settleBox id flags).damage = if (!n.kind.isGroup || flags.style) = true then
      Rect.join s.damage (Rect.join n.box (s.computeBox id)) else s.damage := by
  rw [settleBox]
  rw [hn]
  dsimp only
  split <;> rfl

/-- A visit damages the box that the node had and the one that it gets, unless it is a group whose
style is not stale. -/
theorem repainted_visit (hn : t.node? id = some n)
    (h : Repainted (t.modify id fun k => k.visited (i.below n)) t')
    (hid : t'.node? id = some (n.visited (i.below n))) :
    Repainted t (t'.settleBox id (n.stale ∪ i.flags)) := by
  have hgrows : Covers (t'.settleBox id (n.stale ∪ i.flags)).damage t'.damage := by
    rw [damage_settleBox hid]
    split
    · exact .join_left hlaw _ _
    · exact .refl hlaw _
  have hpainted : (!n.kind.isGroup || (n.stale ∪ i.flags).style) = true →
      Covers (t'.settleBox id (n.stale ∪ i.flags)).damage (Rect.join n.box (t'.computeBox id)) := by
    intro hpaints
    rw [(damage_settleBox hid (n.stale ∪ i.flags)).trans (if_pos hpaints)]
    exact .join_right hlaw _ _
  have hothers : ∀ {j}, j ≠ id → (t'.settleBox id (n.stale ∪ i.flags)).node? j = t'.node? j :=
    fun hj => by rw [node?_settleBox hid, if_neg hj]
  refine ⟨?_, hgrows.trans hlaw h.damage, fun j k k' hk hk' hgroup => ?_,
    fun j k k' hk hk' hstyle => ?_⟩
  · have hmodify : Agree (fun n => n.kind.isGroup) t (t.modify id fun k => k.visited (i.below n)) :=
      .modify fun _ _ => rfl
    exact (hmodify.trans h.nodes).trans (agree_settleBox (fun _ _ _ _ _ _ => rfl) t' id _)
  · by_cases hj : j = id
    · subst hj
      rw [hn] at hk
      cases hk
      have hboth := hpainted (by simp [hgroup])
      rw [node?_settleBox hid, if_pos rfl] at hk'
      cases hk'
      exact .inr ⟨hboth.of_join_left hlaw, hboth.of_join_right hlaw⟩
    · rw [hothers hj] at hk'
      exact (h.changed ((node?_modify_of_ne t _ hj).trans hk) hk' hgroup).imp_right fun hboth =>
        ⟨hgrows.trans hlaw hboth.1, hgrows.trans hlaw hboth.2⟩
  · by_cases hj : j = id
    · subst hj
      rw [hn] at hk
      cases hk
      exact .inr ((hpainted (by simp [hstyle])).of_join_left hlaw)
    · rw [hothers hj] at hk'
      exact (h.restyled ((node?_modify_of_ne t _ hj).trans hk) hk' hstyle).imp_right
        (hgrows.trans hlaw)

theorem Tree.repainted_updatePass (h : s.Tree) : Repainted s s.updatePass := by
  obtain ⟨m, hm, -⟩ := h.root
  exact h.updateSubtree_rel (.refl hlaw) (.trans hlaw) (fun _ _ => repainted_visit hlaw)
    (Nat.le_add_right _ _) hm ⟨.refl _ s, fun _ _ => rfl⟩

/-- A pass damages the box that a node with a stale style had. -/
theorem Sound.covers_of_style (h : s.Sound) (hn : s.node? j = some n)
    (hstyle : n.stale.style = true) : Covers s.updatePass.damage n.box := by
  obtain ⟨n', hn', -⟩ := (h.tree.repainted_updatePass hlaw).nodes.node? hn
  rcases (h.tree.repainted_updatePass hlaw).restyled hn hn' hstyle with ⟨hstyle', -⟩ | hold
  · rw [h.stale_updatePass hn'] at hstyle'
    cases hstyle'
  · exact hold

/-! ## Groups enclose what they show -/

/-- The box of a group covers the boxes of the children that it shows, but for those that were shown
or hidden since the last pass. -/
def Enclosing (s : Scene R) : Prop :=
  ∀ ⦃c p n m⦄, s.node? c = some n → n.parent = some p → s.node? p = some m → n.hidden = false →
    n.stale.style = false → Covers m.box n.box

omit hlaw in
theorem computeBox_of_group (hn : s.node? id = some n) (hgroup : n.kind.isGroup = true) :
    s.computeBox id = s.shownBox n.children := by
  rw [computeBox, hn]
  dsimp only
  cases hkind : n.kind with
  | group layer => rfl
  | path | clone | gradient => rw [hkind] at hgroup; cases hgroup

theorem covers_shownBox {children : List NodeId} (hc : c ∈ children) (hn : s.node? c = some n)
    (hshown : n.hidden = false) : Covers (s.shownBox children) n.box := by
  refine (Covers.foldl_join hlaw Node.box _ none).2 n (List.mem_filter.2 ⟨?_, by simp [hshown]⟩)
  exact List.mem_filterMap.2 ⟨c, hc, hn⟩

theorem covers_of_shown {children : List NodeId} {area : Option (Rect R)}
    (h : ∀ c ∈ children, ∀ n, s.node? c = some n → n.hidden = false → Covers area n.box) :
    Covers area (s.shownBox children) := by
  refine Covers.foldl hlaw (Covers.none area) fun n hn => ?_
  obtain ⟨hn, hshown⟩ := List.mem_filter.1 hn
  obtain ⟨c, hc, hn⟩ := List.mem_filterMap.1 hn
  exact h c hc n hn (by simpa using hshown)

/-- A group with a child that was visited is visited, and its box is computed from the new boxes. -/
theorem Enclosing.updatePass (h : s.Enclosing) (hs : s.Sound) : s.updatePass.Enclosing := by
  have hraw : Agree Node.raw s s.updatePass := agree_updatePass (fun _ _ _ _ _ _ => rfl) s
  intro c p n' m' hn' hparent' hm' hshown' _
  obtain ⟨n, hn, heq⟩ := hraw.symm.node? hn'
  obtain ⟨m, hm, heq'⟩ := hraw.symm.node? hm'
  simp only [Node.raw, Prod.mk.injEq] at heq heq'
  obtain ⟨-, -, hhidden, -, hparent, -⟩ := heq
  have hp : s.parent? c = some p := (parent?_of_node? hn).trans (hparent.trans hparent')
  by_cases hvisit : ∃ i, s.Visit s.root .atRoot p i
  · obtain ⟨i, hvisit⟩ := hvisit
    have hvisited := hs.tree.node?_updatePass_of_visit hvisit hm
    obtain ⟨k, hk, hgroup, -⟩ := hs.tree.node?_of_parent? hp
    rw [hm] at hk
    cases hk
    have hbox : m'.box = s.updatePass.shownBox m'.children := by
      have hgroup' : m'.kind.isGroup = true := heq'.1 ▸ hgroup
      rw [← computeBox_of_group hm' hgroup']
      rw [hm'] at hvisited
      rw [Option.some.inj hvisited]
      rfl
    rw [hbox]
    refine covers_shownBox hlaw ?_ hn' hshown'
    rw [← heq'.2.2.2.2.2]
    exact (hs.tree.mem_children_iff hm).2 hp
  · have hskip : ∀ i, ¬s.Visit s.root .atRoot p i := fun i hi => hvisit ⟨i, hi⟩
    have hskip' : ∀ i, ¬s.Visit s.root .atRoot c i := by
      intro i hi
      exact hvisit (hi.parent (hs.tree.ne_root_of_parent? hp) hp)
    rw [hs.tree.node?_updatePass_of_not_visit hskip'] at hn'
    rw [hs.tree.node?_updatePass_of_not_visit hskip] at hm'
    refine h hn' hparent' hm' hshown' ?_
    have hstale : n'.stale = ∅ := by
      by_contra hne
      obtain ⟨i, hi⟩ := hs.exists_visit hn' hne
      exact hskip' i hi
    rw [hstale]
    rfl

end Freehand.Scene
