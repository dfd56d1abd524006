import Freehand.Proofs.Scene.Boxes
import Freehand.Proofs.Scene.Marks
import Freehand.Proofs.Scene.Tree

/-!
# What a pass does

A pass visits the root if it is stale, and a child of a visited node if the child is stale or
inherits stale aspects (`Scene.Visit`).  It recomputes the visited nodes and no others
(`Tree.node?_updatePass_of_visit`, `Tree.node?_updatePass_of_not_visit`).

The proof follows the recursion.  The subtrees of two children have no node in common, so the second
one is still as it was when the walk comes to it, and the first one stays as the walk left it.
-/

namespace Freehand

/-- A node as it is while its children are visited: placed, and with the box that it had. -/
def Node.visited {R : Type} (n : Node R) (below : Scene.Inherited R) : Node R :=
  { n with stale := ∅, world := below.world, opacity := below.opacity }

/-- A node after it was recomputed from what it inherits. -/
def Node.recomputed {R : Type} [Scalar R] (n : Node R) (i : Scene.Inherited R)
    (box : Option (Rect R)) : Node R :=
  { n with
    stale := ∅
    changed := n.changed ∪ (n.stale ∪ i.flags)
    world := i.world * n.transform
    opacity := i.opacity * n.style.opacity
    box }

namespace Scene

variable {R β : Type} [Scalar R] {s t t' : Scene R} {top p c j id : NodeId}
  {i i' : Inherited R} {n m : Node R}

/-! ## Visited nodes -/

/-- Recomputing the subtree of `top` visits a node, which inherits `i'`. -/
inductive Visit (s : Scene R) (top : NodeId) (i : Inherited R) : NodeId → Inherited R → Prop where
  | top {n : Node R} (hn : s.node? top = some n) (hflags : n.stale ∪ i.flags ≠ ∅) :
      Visit s top i top i
  | child {p c : NodeId} {m n : Node R} {i' : Inherited R} (hp : Visit s top i p i')
      (hm : s.node? p = some m) (hn : s.node? c = some n) (hparent : n.parent = some p)
      (hflags : n.stale ∪ (i'.below m).flags ≠ ∅) : Visit s top i c (i'.below m)

namespace Visit

theorem above (h : s.Visit top i j i') : s.Above top j := by
  induction h with
  | top => exact .refl s top
  | child _ _ hn hparent _ ih =>
    exact ih.trans (.of_parent? ((parent?_of_node? hn).trans hparent) (.refl s _))

theorem exists_node? (h : s.Visit top i j i') :
    ∃ n, s.node? j = some n ∧ n.stale ∪ i'.flags ≠ ∅ := by
  cases h with
  | top hn hflags => exact ⟨_, hn, hflags⟩
  | child _ _ hn _ hflags => exact ⟨_, hn, hflags⟩

/-- The parent of a node that is visited below the top is visited too. -/
theorem parent (h : s.Visit top i c i') (hne : c ≠ top) (hp : s.parent? c = some p) :
    ∃ i₀, s.Visit top i p i₀ := by
  cases h with
  | top => exact absurd rfl hne
  | child hvisit _ hn hparent _ =>
    rw [parent?_of_node? hn, hparent] at hp
    cases hp
    exact ⟨_, hvisit⟩

theorem flags_ne_empty (h : s.Visit top i j i') (hn : s.node? top = some n) :
    n.stale ∪ i.flags ≠ ∅ := by
  induction h with
  | top hm hflags =>
    rw [hn] at hm
    cases hm
    exact hflags
  | child _ _ _ _ _ ih => exact ih

/-- A visit below `top` is one of the subtree of a child. -/
theorem cases_head (h : s.Visit top i j i') (hm : s.node? top = some m) :
    (j = top ∧ i' = i) ∨ ∃ c, s.parent? c = some top ∧ s.Visit c (i.below m) j i' := by
  induction h with
  | top => exact .inl ⟨rfl, rfl⟩
  | child _ hq hn hparent hflags ih =>
    right
    rcases ih with ⟨rfl, rfl⟩ | ⟨c, hc, hvisit⟩
    · rw [hm] at hq
      cases hq
      exact ⟨_, (parent?_of_node? hn).trans hparent, .top hn hflags⟩
    · exact ⟨c, hc, .child hvisit hq hn hparent hflags⟩

theorem of_child (h : s.Visit c (i.below m) j i') (htop : s.Visit top i top i)
    (hm : s.node? top = some m) (hc : s.parent? c = some top) : s.Visit top i j i' := by
  induction h with
  | top hn hflags =>
    exact .child htop hm hn ((parent?_of_node? hn).symm.trans hc) hflags
  | child _ hq hn hparent hflags ih => exact .child ih hq hn hparent hflags

/-- A node is visited once only. -/
theorem eq_of_top (hs : s.Grounded) (h : s.Visit top i top i') : i' = i := by
  cases h with
  | top => rfl
  | child hp _ hn hparent _ =>
    exact absurd hp.above (hs.not_above_parent ((parent?_of_node? hn).trans hparent))

end Visit

/-- Below a child of a visited node, the visits are those of the subtree of the child. -/
theorem Tree.visit_iff_of_child (h : s.Tree) (htop : s.Visit top i top i)
    (hm : s.node? top = some m) (hc : s.parent? c = some top) (hj : s.Above c j) :
    s.Visit top i j i' ↔ s.Visit c (i.below m) j i' := by
  refine ⟨fun hvisit => ?_, fun hvisit => hvisit.of_child htop hm hc⟩
  rcases hvisit.cases_head hm with ⟨heq, -⟩ | ⟨d, hd, hvisit'⟩
  · exact absurd (heq ▸ hj) (h.grounded.not_above_parent hc)
  · have hdc : d = c := by
      by_contra hne
      exact h.not_above_sibling hd hc hne hvisit'.above hj
    exact hdc ▸ hvisit'

/-! ## What a pass leaves alone -/

/-- A part of a node that updates do not reach. -/
def Uncached (part : Node R → β) : Prop :=
  ∀ (n : Node R) (stale changed : Flags) (world : Affine R) (box : Option (Rect R)) (opacity : R),
    part { n with stale, changed, world, box, opacity } = part n

theorem agree_settleBox {part : Node R → β} (h : Uncached part) (s : Scene R) (id : NodeId)
    (flags : Flags) : Agree part s (s.settleBox id flags) := by
  simp only [settleBox]
  split
  · exact .refl part s
  · have hmodify : Agree part s (s.modify id fun n =>
        { n with box := s.computeBox id, changed := n.changed ∪ flags }) :=
      .modify fun n _ => h n _ _ _ _ _
    split
    · exact hmodify
    · exact hmodify

/-- A pass changes the caches of nodes only. -/
theorem agree_updateSubtree {part : Node R → β} (h : Uncached part) :
    ∀ (levels : Nat) (i : Inherited R) (id : NodeId) (s : Scene R),
      Agree part s (updateSubtree levels i id s) := by
  intro levels
  induction levels with
  | zero => exact fun _ _ s => .refl part s
  | succ levels ih =>
    intro i id s
    rw [updateSubtree]
    split
    · exact .refl part s
    next n _ =>
      dsimp only
      split
      · exact .refl part s
      · have hmodify : Agree part s (s.modify id fun k => { k with
            stale := ∅, world := (i.below n).world, opacity := (i.below n).opacity }) :=
          .modify fun k _ => h k _ _ _ _ _
        exact (hmodify.trans (.foldl (fun s c => ih _ c s) n.children _)).trans
          (agree_settleBox h _ id _)

theorem stays_settleBox (s : Scene R) (id : NodeId) (flags : Flags) :
    Stays s (s.settleBox id flags) := by
  simp only [settleBox]
  split
  · exact .refl s
  · have hmodify := stays_modify s id fun n =>
      { n with box := s.computeBox id, changed := n.changed ∪ flags }
    split
    · exact hmodify.trans ⟨rfl, rfl, fun hv => hv⟩
    · exact hmodify

/-- It adds no node and frees none. -/
theorem stays_updateSubtree :
    ∀ (levels : Nat) (i : Inherited R) (id : NodeId) (s : Scene R),
      Stays s (updateSubtree levels i id s) := by
  intro levels
  induction levels with
  | zero => exact fun _ _ s => .refl s
  | succ levels ih =>
    intro i id s
    rw [updateSubtree]
    split
    · exact .refl s
    next n _ =>
      dsimp only
      split
      · exact .refl s
      · exact ((stays_modify s id _).trans (.foldl (fun s c => ih _ c s) n.children _)).trans
          (stays_settleBox _ id _)

/-- A box is settled on the node itself, with news of what was stale. -/
theorem node?_settleBox (hn : s.node? id = some n) (flags : Flags) (j : NodeId) :
    (s.settleBox id flags).node? j =
      if j = id then some { n with box := s.computeBox id, changed := n.changed ∪ flags }
      else s.node? j := by
  rw [settleBox]
  rw [hn]
  dsimp only
  have hmodify : (s.modify id fun n => { n with
      box := s.computeBox id, changed := n.changed ∪ flags }).node? j =
      if j = id then some { n with box := s.computeBox id, changed := n.changed ∪ flags }
      else s.node? j := by
    rw [node?_modify]
    split
    next hj => rw [hj, hn, Option.map_some]
    next => rfl
  split
  · rw [node?_addDamage, hmodify]
  · exact hmodify

omit [Scalar R] in
theorem Agree.sameContent (h : Agree Node.raw s t) (id : NodeId) : SameContent s t id :=
  fun d _ => h.map (fun raw => (raw.1, raw.2.1, raw.2.2.1, raw.2.2.2.2.2)) d

/-! ## The subtree of a node after it was recomputed -/

/-- At the node `j` the scene `t` is what recomputing the subtree of `top` makes of `s`. -/
structure Recomputed (s t : Scene R) (top : NodeId) (i : Inherited R) (j : NodeId) : Prop where
  visited : ∀ ⦃i' n⦄, s.Visit top i j i' → s.node? j = some n →
    t.node? j = some (n.recomputed i' (t.computeBox j))
  skipped : (∀ i', ¬s.Visit top i j i') → t.node? j = s.node? j

/-- What was recomputed stays so while other subtrees are. -/
theorem Recomputed.congr (h : s.Tree) (hrec : Recomputed s t top i j)
    (hraw : Agree Node.raw s t) (hraw' : Agree Node.raw t t')
    (hsame : ∀ k, s.Above j k → t'.node? k = t.node? k) : Recomputed s t' top i j := by
  refine ⟨fun i' n hvisit hn => ?_, fun hskip => ?_⟩
  · have hbox : t'.computeBox j = t.computeBox j := by
      refine computeBox_congr (hraw'.sameContent j) ?_ fun k hk c hc => ?_
      · rw [hsame j (.refl s j)]
      · obtain ⟨k₀, hk₀, heq⟩ := hraw.symm.node? hk
        simp only [Node.raw, Prod.mk.injEq] at heq
        have hchild : s.parent? c = some j :=
          (h.mem_children_iff hk₀).1 (by rw [heq.2.2.2.2.2]; exact hc)
        rw [hsame c (.of_parent? hchild (.refl s j))]
    rw [hsame j (.refl s j), hrec.visited hvisit hn, hbox]
  · rw [hsame j (.refl s j), hrec.skipped hskip]

/-- In the subtree of `top`, the scene `t` is still what `s` is. -/
structure Awaits (s t : Scene R) (top : NodeId) : Prop where
  raw : Agree Node.raw s t
  same : ∀ j, s.Above top j → t.node? j = s.node? j

/-- From `t` to `t'` the subtree of `top` in `s` is recomputed, and nothing else changes. -/
structure Renews (s t t' : Scene R) (top : NodeId) (i : Inherited R) : Prop where
  outside : ∀ j, ¬s.Above top j → t'.node? j = t.node? j
  inside : ∀ j, s.Above top j → Recomputed s t' top i j

omit [Scalar R] in
/-- While a node is visited, the subtrees of its children stay as they were. -/
theorem Awaits.child (h : Awaits s t id) (hs : s.Tree) (hc : s.parent? c = some id)
    (below : Inherited R) : Awaits s (t.modify id fun k => k.visited below) c :=
  ⟨h.raw.trans (.modify fun _ _ => rfl), fun j hj => by
    have hne : j ≠ id := fun heq => hs.grounded.not_above_parent hc (heq ▸ hj)
    rw [node?_modify_of_ne t _ hne, h.same j ((Above.of_parent? hc (.refl s id)).trans hj)]⟩

/-- While one child is recomputed, its siblings stay as they were. -/
theorem Awaits.of_renews (h : Awaits s t d) (hs : s.Tree) (hc : s.parent? c = some id)
    (hd : s.parent? d = some id) (hne : c ≠ d) (hraw : Agree Node.raw t t')
    (hrenews : Renews s t t' c i) : Awaits s t' d :=
  ⟨h.raw.trans hraw, fun j hj => by
    rw [hrenews.outside j fun hcj => hs.not_above_sibling hc hd hne hcj hj, h.same j hj]⟩

/-- The children of a node are recomputed one after the other, each in its own subtree. -/
theorem Tree.foldl_renews (h : s.Tree) {f : Scene R → NodeId → Scene R}
    (hraw : ∀ t c, Agree Node.raw t (f t c)) :
    ∀ {cs : List NodeId} {t : Scene R}, cs.Nodup → (∀ c ∈ cs, s.parent? c = some id) →
      (∀ c ∈ cs, ∀ t, Awaits s t c → Renews s t (f t c) c i) → (∀ c ∈ cs, Awaits s t c) →
      (∀ j, (∀ c ∈ cs, ¬s.Above c j) → (cs.foldl f t).node? j = t.node? j) ∧
      ∀ c ∈ cs, ∀ j, s.Above c j → Recomputed s (cs.foldl f t) c i j := by
  intro cs
  induction cs with
  | nil => exact fun _ _ _ _ => ⟨fun _ _ => rfl, nofun⟩
  | cons c cs ih =>
    intro t hnodup hparent hf hawaits
    obtain ⟨hnot, hnodup'⟩ := List.nodup_cons.1 hnodup
    have hc := hparent c List.mem_cons_self
    have hparent' : ∀ d ∈ cs, s.parent? d = some id := fun d hd =>
      hparent d (List.mem_cons_of_mem c hd)
    have hapart : ∀ d ∈ cs, ∀ j, s.Above c j → ¬s.Above d j := fun d hd j hj =>
      h.not_above_sibling hc (hparent' d hd) (fun heq => hnot (heq ▸ hd)) hj
    have ht := hawaits c List.mem_cons_self
    have hfirst := hf c List.mem_cons_self t ht
    have ht' := ht.raw.trans (hraw t c)
    obtain ⟨hout, hin⟩ := ih hnodup' hparent' (fun d hd => hf d (List.mem_cons_of_mem c hd))
      fun d hd => (hawaits d (List.mem_cons_of_mem c hd)).of_renews h hc (hparent' d hd)
        (fun heq => hnot (heq ▸ hd)) (hraw t c) hfirst
    refine ⟨fun j hj => ?_, fun d hd j hj => ?_⟩
    · rw [List.foldl_cons, hout j fun d hd => hj d (List.mem_cons_of_mem c hd)]
      exact hfirst.outside j (hj c List.mem_cons_self)
    · rcases List.mem_cons.1 hd with rfl | hd
      · refine (hfirst.inside j hj).congr h ht' (.foldl hraw cs _) fun k hk => ?_
        exact hout k fun e he => hapart e he k (hj.trans hk)
      · exact hin d hd j hj

/-- Settling the box of a node leaves alone what its box is computed from. -/
theorem Tree.computeBox_settleBox (h : s.Tree) (hraw : Agree Node.raw s t)
    (hn : t.node? id = some n) (flags : Flags) :
    (t.settleBox id flags).computeBox id = t.computeBox id := by
  have hraw' : Agree Node.raw t (t.settleBox id flags) :=
    agree_settleBox (fun _ _ _ _ _ _ => rfl) t id flags
  refine computeBox_congr (hraw'.sameContent id) ?_ fun k hk c hc => ?_
  · rw [node?_settleBox hn, if_pos rfl, hn]
    rfl
  · obtain ⟨m, hm, heq⟩ := hraw.symm.node? hk
    simp only [Node.raw, Prod.mk.injEq] at heq
    have hparent := (h.mem_children_iff hm).1 (by rw [heq.2.2.2.2.2]; exact hc)
    have hne : c ≠ id := fun heq => h.grounded.not_above_parent hparent (heq ▸ .refl s c)
    rw [node?_settleBox hn, if_neg hne]

/-- The children of a visited node are recomputed, and then its box. -/
theorem Tree.renews_settleBox (h : s.Tree) {t₁ t₂ : Scene R} (hn : s.node? id = some n)
    (htop : s.Visit id i id i) (hraw₂ : Agree Node.raw s t₂)
    (hid : t₂.node? id = some (n.visited (i.below n)))
    (hsame : ∀ j, j ≠ id → t₁.node? j = t.node? j)
    (hout : ∀ j, (∀ c ∈ n.children, ¬s.Above c j) → t₂.node? j = t₁.node? j)
    (hin : ∀ c ∈ n.children, ∀ j, s.Above c j → Recomputed s t₂ c (i.below n) j) :
    Renews s t (t₂.settleBox id (n.stale ∪ i.flags)) id i := by
  have hothers : ∀ j, j ≠ id →
      (t₂.settleBox id (n.stale ∪ i.flags)).node? j = t₂.node? j := by
    intro j hj
    rw [node?_settleBox hid, if_neg hj]
  refine ⟨fun j hj => ?_, fun j hj => ?_⟩
  · have hjid : j ≠ id := fun heq => hj (heq ▸ .refl s id)
    rw [hothers j hjid, hout j fun c hc hcj => hj
      ((Above.of_parent? ((h.mem_children_iff hn).1 hc) (.refl s id)).trans hcj), hsame j hjid]
  · by_cases hjid : j = id
    · subst hjid
      refine ⟨fun i' m hvisit hm => ?_, fun hskip => absurd htop (hskip i)⟩
      rw [hn] at hm
      cases hm
      rw [hvisit.eq_of_top h.grounded, h.computeBox_settleBox hraw₂ hid, node?_settleBox hid,
        if_pos rfl]
      rfl
    · obtain ⟨c, hc, hcj⟩ := hj.exists_child hjid
      have hrec : Recomputed s (t₂.settleBox id (n.stale ∪ i.flags)) c (i.below n) j := by
        refine (hin c ((h.mem_children_iff hn).2 hc) j hcj).congr h hraw₂
          (agree_settleBox (fun _ _ _ _ _ _ => rfl) t₂ id _) fun k hk => hothers k fun heq => ?_
        exact h.grounded.not_above_parent hc (heq ▸ hcj.trans hk)
      exact ⟨fun i' m hvisit => hrec.visited ((h.visit_iff_of_child htop hn hc hcj).1 hvisit),
        fun hskip => hrec.skipped fun i' hvisit =>
          hskip i' ((h.visit_iff_of_child htop hn hc hcj).2 hvisit)⟩

/-- Recomputing a subtree in a scene that is still as it was there. -/
theorem Tree.renews_updateSubtree (h : s.Tree) :
    ∀ {levels : Nat} {i : Inherited R} {id : NodeId} {n : Node R} {t : Scene R},
      s.nodes.slots.size ≤ levels + s.depth id → s.node? id = some n → Awaits s t id →
      Renews s t (updateSubtree levels i id t) id i := by
  intro levels
  induction levels with
  | zero =>
    intro i id n t hlevels hn
    have := h.depth_lt hn
    omega
  | succ levels ih =>
    intro i id n t hlevels hn ht
    have hid := ht.same id (.refl s id)
    rw [Scene.updateSubtree]
    rw [hid, hn]
    dsimp only
    split
    next hempty =>
      refine ⟨fun _ _ => rfl, fun j hj => ⟨fun i' _ hvisit => ?_, fun _ => ht.same j hj⟩⟩
      exact absurd (Flags.isEmpty_iff.1 hempty) (hvisit.flags_ne_empty hn)
    next hflags =>
      have hchildren : ∀ c ∈ n.children, s.parent? c = some id := fun c hc =>
        (h.mem_children_iff hn).1 hc
      have hself : ∀ c ∈ n.children, ¬s.Above c id := fun c hc =>
        h.grounded.not_above_parent (hchildren c hc)
      have hsub : ∀ t c, Agree Node.raw t (updateSubtree levels (i.below n) c t) := fun t c =>
        agree_updateSubtree (fun _ _ _ _ _ _ => rfl) levels (i.below n) c t
      -- the node first, then its children, then its box
      show Renews s t ((n.children.foldl (fun t c => updateSubtree levels (i.below n) c t)
        (t.modify id fun k => k.visited (i.below n))).settleBox id (n.stale ∪ i.flags)) id i
      generalize ht₁ : (t.modify id fun k => k.visited (i.below n)) = t₁
      have hid₁ : t₁.node? id = some (n.visited (i.below n)) := by
        rw [← ht₁, node?_modify_self, hid, hn, Option.map_some]
      have hothers : ∀ j, j ≠ id → t₁.node? j = t.node? j := by
        intro j hj
        rw [← ht₁, node?_modify_of_ne t _ hj]
      have hraw₁ : Agree Node.raw s t₁ := by
        rw [← ht₁]
        exact ht.raw.trans (.modify fun _ _ => rfl)
      obtain ⟨hout, hin⟩ := h.foldl_renews hsub (h.nodup_children hn) hchildren
        (fun c hc t ht => by
          obtain ⟨m, hm, -⟩ := h.child hn hc
          have := h.grounded.depth_of_parent? (hchildren c hc)
          exact ih (by omega) hm ht)
        fun c hc => ht₁ ▸ ht.child h (hchildren c hc) _
      exact h.renews_settleBox hn (.top hn fun heq => hflags (Flags.isEmpty_iff.2 heq))
        (hraw₁.trans (.foldl hsub _ _)) ((hout id hself).trans hid₁) hothers hout hin

/-! ## The whole pass -/

/-- A node that the pass visits is recomputed from what it inherits. -/
theorem Tree.node?_updatePass_of_visit (h : s.Tree) (hvisit : s.Visit s.root .atRoot j i)
    (hn : s.node? j = some n) :
    s.updatePass.node? j = some (n.recomputed i (s.updatePass.computeBox j)) := by
  obtain ⟨m, hm, -⟩ := h.root
  exact ((h.renews_updateSubtree (Nat.le_add_right _ _) hm ⟨.refl _ s, fun _ _ => rfl⟩).inside j
    hvisit.above).visited hvisit hn

/-- All other nodes stay as they are. -/
theorem Tree.node?_updatePass_of_not_visit (h : s.Tree)
    (hskip : ∀ i, ¬s.Visit s.root .atRoot j i) : s.updatePass.node? j = s.node? j := by
  obtain ⟨m, hm, -⟩ := h.root
  have hpass : Renews s s s.updatePass s.root .atRoot :=
    h.renews_updateSubtree (Nat.le_add_right _ _) hm ⟨.refl _ s, fun _ _ => rfl⟩
  by_cases hj : s.Above s.root j
  · exact (hpass.inside j hj).skipped hskip
  · exact hpass.outside j hj

/-- After the pass a node is recomputed, or it was not visited. -/
theorem Tree.node?_updatePass_cases (h : s.Tree) (hn : s.updatePass.node? j = some n) :
    (∃ i n₀, s.Visit s.root .atRoot j i ∧ s.node? j = some n₀ ∧
      n = n₀.recomputed i (s.updatePass.computeBox j)) ∨
    (∀ i, ¬s.Visit s.root .atRoot j i) ∧ s.node? j = some n := by
  by_cases hvisit : ∃ i, s.Visit s.root .atRoot j i
  · obtain ⟨i, hi⟩ := hvisit
    obtain ⟨n₀, hn₀, -⟩ := hi.exists_node?
    rw [h.node?_updatePass_of_visit hi hn₀] at hn
    cases hn
    exact .inl ⟨i, n₀, hi, hn₀, rfl⟩
  · have hskip : ∀ i, ¬s.Visit s.root .atRoot j i := fun i hi => hvisit ⟨i, hi⟩
    rw [h.node?_updatePass_of_not_visit hskip] at hn
    exact .inr ⟨hskip, hn⟩

end Scene

end Freehand
