import Freehand.Proofs.Scene.Damage

/-!
# What changes leave of painted nodes

Whatever changes a scene, other than a pass, leaves the boxes of its nodes, marks the nodes that it
changes and damages the ones that it removes (`Scene.Alters`).  So groups go on enclosing what they
show (`Scene.Enclosing.of_alters`).
-/

namespace Freehand

open Scene
open Rect (Covers)

variable {R : Type}

namespace Scene

variable {s s' : Scene R} {id j p : NodeId} {n n' m : Node R} {flags : Flags}

/-! ## Shown nodes -/

/-- Neither the node nor one above it is hidden. -/
def Shown (s : Scene R) (id : NodeId) : Prop :=
  ∀ ⦃j m⦄, s.Above j id → s.node? j = some m → m.hidden = false

theorem Grounded.shown_iff (h : s.Grounded) :
    s.isEffectivelyHidden id = false ↔ s.Shown id := by
  rw [isEffectivelyHidden, anyNode, List.any_eq_false]
  constructor
  · intro hnone j m hup hm
    have := hnone j (h.mem_self_ancestors_iff.2 hup)
    simpa [hm] using this
  · intro hshown j hj
    cases hm : s.node? j with
    | none => simp
    | some m => simpa using hshown (h.mem_self_ancestors_iff.1 hj) hm

theorem not_shown_iff :
    ¬s.Shown id ↔ ∃ j m, s.Above j id ∧ s.node? j = some m ∧ m.hidden = true := by
  simp [Shown]

theorem shown_iff_of_agree (h : Agree (fun n => (n.parent, n.hidden)) s s') :
    s'.Shown id ↔ s.Shown id := by
  have habove : ∀ {j}, s'.Above j id ↔ s.Above j id := above_iff_of_agree (h.map Prod.fst)
  have hhidden : Agree Node.hidden s s' := h.map Prod.snd
  refine ⟨fun hshown j m hup hm => ?_, fun hshown j m' hup hm' => ?_⟩
  · obtain ⟨m', hm', heq⟩ := hhidden.node? hm
    exact heq.symm.trans (hshown (habove.2 hup) hm')
  · obtain ⟨m, hm, heq⟩ := hhidden.symm.node? hm'
    exact heq.symm.trans (hshown (habove.1 hup) hm)

variable [Scalar R]

/-- On the way up through shown nodes boxes grow, as far as no style is stale. -/
theorem Enclosing.climb (hlaw : Scalar.Ordered R) (h : s.Enclosing) (hs : s.Tree)
    (hup : s.Above j id) (hshown : s.Shown id) (hn : s.node? id = some n)
    (hm : s.node? j = some m) : Covers m.box n.box ∨ ∃ k l, s.Above k id ∧ s.node? k = some l ∧
      l.stale.style = true ∧ Covers l.box n.box := by
  induction hup using Relation.ReflTransGen.head_induction_on generalizing n with
  | refl =>
    rw [hn] at hm
    cases hm
    exact .inl (.refl hlaw _)
  | head hp _ ih =>
    cases hstyle : n.stale.style with
    | true => exact .inr ⟨_, n, .refl s _, hn, hstyle, .refl hlaw _⟩
    | false =>
      obtain ⟨q, hq, -⟩ := hs.node?_of_parent? hp
      have hbox : Covers q.box n.box :=
        h hn ((parent?_of_node? hn).symm.trans hp) hq (hshown (.refl s _) hn) hstyle
      rcases ih (fun k l hk => hshown (.of_parent? hp hk)) hq with hcovers | ⟨k, l, hk, hl, hrest⟩
      · exact .inl (hcovers.trans hlaw hbox)
      · exact .inr ⟨k, l, .of_parent? hp hk, hl, hrest.1, hrest.2.trans hlaw hbox⟩

/-! ## What changes leave of painted nodes -/

/-- Nodes that are left keep their place and their boxes, nodes that changed are marked, and nodes
that are gone are damaged, by the box of a node above them. -/
structure Alters (s s' : Scene R) : Prop where
  edited : Edited s s'
  place : ∀ ⦃j n n'⦄, s.node? j = some n → s'.node? j = some n' →
    n'.kind.isGroup = n.kind.isGroup ∧ n'.parent = n.parent
  marks : ∀ ⦃j n n'⦄, s.node? j = some n → s'.node? j = some n' →
    n.stale ⊆ n'.stale ∧ (n'.hidden = n.hidden ∨ n'.stale.style = true)
  fresh : ∀ ⦃j n'⦄, s.node? j = none → s'.node? j = some n' → n'.stale.style = true
  gone : ∀ ⦃j n⦄, s.node? j = some n → s'.node? j = none →
    ∃ d m, s.Above d j ∧ s.node? d = some m ∧ Covers s'.damage m.box
  damage : Covers s'.damage s.damage

namespace Alters

theorem box_eq (h : Alters s s') (hn : s.node? j = some n) (hn' : s'.node? j = some n') :
    n'.box = n.box :=
  congrArg (fun caches => caches.2.1) (h.edited.caches hn hn')

/-- Nodes that wear their old marks, and more where they were hidden or shown, are altered at most.
-/
theorem of_wears (hwears : Wears s s')
    (hagree : Agree (fun n => (n.kind.isGroup, n.parent)) s s')
    (hhidden : ∀ ⦃j n n'⦄, s.node? j = some n → s'.node? j = some n' →
      n'.hidden = n.hidden ∨ n'.stale.style = true)
    (hdamage : Covers s'.damage s.damage) : Alters s s' where
  edited := hwears.edited
  place j n n' hn hn' := by
    have heq := hagree.part_eq hn hn'
    exact Prod.mk.injEq .. ▸ heq
  marks j n n' hn hn' := by
    obtain ⟨k, hk, hsub, -⟩ := hwears hn'
    rw [hn] at hk
    cases hk
    exact ⟨hsub, hhidden hn hn'⟩
  fresh j n' hnone hn' := by
    obtain ⟨n, hn, -⟩ := hwears hn'
    rw [hnone] at hn
    cases hn
  gone j n hn hnone := by
    obtain ⟨n', hn', -⟩ := hagree.node? hn
    rw [hnone] at hn'
    cases hn'
  damage := hdamage

variable (hlaw : Scalar.Ordered R)
include hlaw

theorem of_agree (hagree : Agree (fun n => (n.raw, n.kind.isGroup, n.stale, n.caches)) s s')
    (hdamage : s'.damage = s.damage) : Alters s s' := by
  refine .of_wears (.of_agree (hagree.map fun part => (part.1, part.2.2.1, part.2.2.2)))
    (hagree.map fun part => (part.2.1, part.1.2.2.2.2.1)) (fun j n n' hn hn' => .inl ?_)
    (hdamage ▸ .refl hlaw _)
  have heq := hagree.part_eq hn hn'
  exact congrArg (fun part => part.1.2.2.1) heq

theorem touch (s : Scene R) (id : NodeId) (flags : Flags) : Alters s (s.touch id flags) := by
  have hagree : Agree (fun n => (n.kind.isGroup, n.parent, n.hidden)) s (s.touch id flags) :=
    agree_touch (fun _ _ => rfl) s id flags
  refine .of_wears (wears_touch s id flags) (hagree.map fun part => (part.1, part.2.1))
    (fun j n n' hn hn' => .inl ?_) ((prompts_touch s id flags).damage ▸ .refl hlaw _)
  have heq := hagree.part_eq hn hn'
  exact congrArg (fun part => part.2.2) heq

/-- An edit may hide its node or show it, but marks the style stale then. -/
theorem of_revised (h : Revised s s') : Alters s s' := by
  refine .of_wears h.wears ?_ (fun j n n' hn hn' => ?_) (h.prompts.damage ▸ .refl hlaw _)
  · cases h with
    | same => exact .refl _ s
    | touched hrev =>
      exact (hrev.same.map fun part => (part.1.1, part.1.2.1)).trans
        (agree_touch (fun _ _ => rfl) _ _ _)
  · cases h with
    | same =>
      rw [hn] at hn'
      cases hn'
      exact .inl rfl
    | @touched t id flags hrev =>
      have htouch : Agree Node.hidden t (t.touch id flags) :=
        agree_touch (fun _ _ => rfl) t id flags
      obtain ⟨k, hk, hkhidden⟩ := htouch.symm.node? hn'
      by_cases hj : j = id
      · rcases hrev.hidden with hstyle | hsame
        · obtain ⟨-, -, -, hself⟩ := stale_touch t id flags hn'
          exact .inr ((Flags.subset_iff.1 (hself hj)).2.1 hstyle)
        · have hsame := hsame.part_eq hn hk
          exact .inl (hkhidden.symm.trans hsame)
      · have hraw := hrev.raw j (.inl hj)
        rw [hn, hk, Option.map_some, Option.map_some, Option.some.injEq] at hraw
        exact .inl (hkhidden.symm.trans (congrArg (fun raw => raw.2.2.1) hraw))

/-- Adding a node alters no other node, and the new one is marked. -/
theorem insertChild {kind : Kind R} (hs : s.Sound) (hfits : (s.plant p kind).nodes.Fits)
    (hp : s.node? p = some m) : Alters s (s.insertChild p kind).2 := by
  have hwears : Wears (s.plant p kind) (s.insertChild p kind).2 :=
    (wears_touch _ p .membership).trans (wears_touch _ (s.nextId p kind) .created)
  have hagree : Agree (fun n => (n.kind.isGroup, n.parent, n.hidden)) (s.plant p kind)
      (s.insertChild p kind).2 := agree_insertChild (fun _ _ => rfl) s p kind
  have hkept : ∀ {j n n'}, s.node? j = some n → (s.insertChild p kind).2.node? j = some n' →
      (n'.kind.isGroup = n.kind.isGroup ∧ n'.parent = n.parent) ∧
      n.stale ⊆ n'.stale ∧ n'.hidden = n.hidden := by
    intro j n n' hn hn'
    have hplanted := node?_plant_of_node? hs.valid hfits hn
    have heq := hagree.part_eq hplanted hn'
    obtain ⟨l, hl, hsub, -⟩ := hwears hn'
    rw [hplanted] at hl
    cases hl
    simp only [Prod.mk.injEq] at heq
    exact ⟨⟨heq.1, heq.2.1⟩, hsub, heq.2.2⟩
  refine ⟨edited_insertChild hs hfits, fun j n n' hn hn' => (hkept hn hn').1,
    fun j n n' hn hn' => ⟨(hkept hn hn').2.1, .inl (hkept hn hn').2.2⟩, fun j n' hnone hn' => ?_,
    fun j n hn hnone => ?_, (prompts_insertChild hs hfits hp).damage ▸ .refl hlaw _⟩
  · obtain ⟨k, hk, -, hself⟩ := stale_touch _ (s.nextId p kind) .created hn'
    obtain ⟨l, hl, -⟩ := stale_touch _ p .membership hk
    rcases node?_plant_cases hs.valid hfits hp hl with ⟨hj, -⟩ | ⟨n, hn, -⟩
    · exact (Flags.subset_iff.1 (hself hj)).2.1 rfl
    · rw [hnone] at hn
      cases hn
  · obtain ⟨k, hk, -⟩ := hagree.node? (node?_plant_of_node? hs.valid hfits hn)
    rw [hnone] at hk
    cases hk

/-- Removing a subtree damages the box of its top, which every removed node is below. -/
theorem remove {freed : List NodeId} (hs : s.Sound) (h : s.remove id = .ok (s', freed)) :
    Alters s s' := by
  have hlasting : ∀ {j n n'}, s.node? j = some n → s'.node? j = some n' →
      (n'.kind.isGroup = n.kind.isGroup ∧ n'.parent = n.parent) ∧ n'.hidden = n.hidden := by
    intro j n n' hn hn'
    obtain ⟨hup, -⟩ := node?_of_remove hs.tree h hn'
    obtain ⟨k, hk, heq⟩ := node?_remove_of_not_above hs.tree h hup hn
    rw [hn'] at hk
    cases hk
    simp only [Node.lasting, Node.place, Prod.mk.injEq] at heq
    exact ⟨⟨heq.1.1, heq.1.2.1⟩, heq.2.1.2.1⟩
  obtain ⟨m, hm, hprompts⟩ := prompts_remove h
  have hdamage : s'.damage = Rect.join s.damage m.box := hprompts.damage
  refine ⟨edited_remove hs.tree h, fun j n n' hn hn' => (hlasting hn hn').1,
    fun j n n' hn hn' => ⟨?_, .inl (hlasting hn hn').2⟩, fun j n' hnone hn' => ?_,
    fun j n hn hnone => ⟨id, m, ?_, hm, hdamage ▸ .join_right hlaw _ _⟩,
    hdamage ▸ .join_left hlaw _ _⟩
  · obtain ⟨-, m, hm, -, rfl⟩ := eq_of_remove_eq_ok h
    have hwears := (Wears.foldl wears_release freed (s.cut id m)).trans
      (wears_touchParent _ m.parent)
    obtain ⟨l, hl, hsub, -⟩ := hwears hn'
    rw [node?_cut hs.tree hm, hn, Option.map_some] at hl
    cases hl
    exact hsub
  · obtain ⟨-, n, hn⟩ := node?_of_remove hs.tree h hn'
    rw [hnone] at hn
    cases hn
  · by_contra hup
    obtain ⟨k, hk, -⟩ := node?_remove_of_not_above hs.tree h hup hn
    rw [hnone] at hk
    cases hk

end Alters

theorem Change.alters (hlaw : Scalar.Ordered R) (h : Change s s') (hs : s.Sound)
    (hfits : s'.nodes.Fits) : Alters s s' := by
  cases h with
  | revised hrev => exact .of_revised hlaw hrev
  | inserted hp => exact .insertChild hlaw hs ((stays_insertChild s _ _).fits hfits) hp
  | removed hrem => exact .remove hlaw hs hrem

section

variable (halters : Alters s s') (hs : s.Tree) (hs' : s'.Tree)
include halters hs hs'

/-- The nodes above one that is left are left, and are the same. -/
theorem Alters.above (hup : s.Above j id) (hn : s.node? id = some n)
    (hn' : s'.node? id = some n') : s'.Above j id := by
  induction hup using Relation.ReflTransGen.head_induction_on generalizing n n' with
  | refl => exact .refl s' j
  | head hp _ ih =>
    have hparent := (halters.place hn hn').2
    have hp' : s'.parent? _ = some _ :=
      (parent?_of_node? hn').trans (hparent.trans ((parent?_of_node? hn).symm.trans hp))
    obtain ⟨m, hm, -⟩ := hs.node?_of_parent? hp
    obtain ⟨m', hm', -⟩ := hs'.node?_of_parent? hp'
    exact .of_parent? hp' (ih hm hm')

theorem Alters.of_above (hup : s'.Above j id) (hn : s.node? id = some n)
    (hn' : s'.node? id = some n') : s.Above j id := by
  induction hup using Relation.ReflTransGen.head_induction_on generalizing n n' with
  | refl => exact .refl s j
  | head hp' _ ih =>
    have hparent := (halters.place hn hn').2
    have hp : s.parent? _ = some _ :=
      (parent?_of_node? hn).trans (hparent.symm.trans ((parent?_of_node? hn').symm.trans hp'))
    obtain ⟨m, hm, -⟩ := hs.node?_of_parent? hp
    obtain ⟨m', hm', -⟩ := hs'.node?_of_parent? hp'
    exact .of_parent? hp (ih hm hm')

omit hs' in
/-- Boxes still enclose those below them after an alteration, as a node that got shown has a stale
style. -/
theorem Enclosing.of_alters (h : s.Enclosing) : s'.Enclosing := by
  intro c p n' m' hn' hparent' hm' hshown' hstyle'
  cases hn : s.node? c with
  | none => rw [halters.fresh hn hn'] at hstyle'; cases hstyle'
  | some n =>
    have hparent := (halters.place hn hn').2.symm.trans hparent'
    obtain ⟨m, hm, -⟩ := hs.node?_of_parent? ((parent?_of_node? hn).trans hparent)
    obtain ⟨hsub, hhidden⟩ := halters.marks hn hn'
    have hstyle : n.stale.style = false := by
      rw [← Bool.not_eq_true]
      intro hstyle
      rw [(Flags.subset_iff.1 hsub).2.1 hstyle] at hstyle'
      cases hstyle'
    have hshown : n.hidden = false := by
      rcases hhidden with hsame | hmarked
      · exact hsame.symm.trans hshown'
      · rw [hmarked] at hstyle'
        cases hstyle'
    rw [halters.box_eq hn hn', halters.box_eq hm hm']
    exact h hn hparent hm hshown hstyle

end

end Scene

end Freehand
