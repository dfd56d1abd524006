import Freehand.Proofs.Scene.Convergence
import Mathlib.Data.List.Chain

/-!
# What nodes depend on

A node depends on the nodes that it leads to, its children and the node that it shows, and on the
gradients that it is painted with (`Scene.Needs`).

* The tree alone has no cycle, and neither has the tree with the reference of one clone: every cycle
  of children and clones runs through two clones that stand apart (`Sound.exists_clones`).
* Where nodes lead to each other in no cycle, what a node leads to is as deep as there are nodes at
  most (`Sound.length_le_size`).
* Gradients depend on gradients only.  So nodes depend on each other in no cycle if they lead to
  each other in none, and gradients paint each other in none (`Sound.acyclic_needs`).
-/

namespace Freehand

open Relation (TransGen ReflTransGen)

/-- No way along the relation leads back to where it began. -/
def Acyclic (r : NodeId → NodeId → Prop) : Prop :=
  ∀ id, ¬TransGen r id id

namespace Acyclic

variable {r r' : NodeId → NodeId → Prop} {a b c t : NodeId}

theorem mono (h : Acyclic r) (hsub : ∀ ⦃a b⦄, r' a b → r a b) : Acyclic r' :=
  fun id hcycle => h id (TransGen.mono (fun _ _ hab => hsub hab) _ _ hcycle)

theorem swap (h : Acyclic r) : Acyclic (Function.swap r) :=
  fun id hcycle => h id (Relation.transGen_swap.1 hcycle)

theorem nodup (h : Acyclic r) {ids : List NodeId} (hchain : ids.IsChain r) : ids.Nodup := by
  have hpairs : ids.Pairwise (TransGen r) :=
    List.isChain_iff_pairwise.1 (hchain.imp fun _ _ => .single)
  refine hpairs.imp fun {a b} hab heq => ?_
  rw [heq] at hab
  exact h b hab

/-- With one more edge, a way is one as before, or leads up to the edge and on from it. -/
theorem cases_of_edge (hedge : ∀ ⦃a b⦄, r' a b → r a b ∨ a = c ∧ b = t)
    (h : ReflTransGen r' a b) :
    ReflTransGen r a b ∨ ReflTransGen r a c ∧ ReflTransGen r t b := by
  induction h with
  | refl => exact .inl .refl
  | tail _ hstep ih =>
    rcases hedge hstep with hstep | ⟨rfl, rfl⟩
    · exact ih.imp (fun hab => hab.tail hstep) fun ⟨hac, htb⟩ => ⟨hac, htb.tail hstep⟩
    · exact .inr ⟨ih.elim id And.left, .refl⟩

/-- An edge closes no cycle if no way leads from its end to its beginning. -/
theorem of_edge (h : Acyclic r) (hedge : ∀ ⦃a b⦄, r' a b → r a b ∨ a = c ∧ b = t)
    (hopen : ¬ReflTransGen r t c) : Acyclic r' := by
  intro id hcycle
  obtain ⟨b, hway, hlast⟩ := Relation.TransGen.tail'_iff.1 hcycle
  have hcases := cases_of_edge hedge hway
  rcases hedge hlast with hlast | ⟨rfl, rfl⟩
  · rcases hcases with hway | ⟨hic, htb⟩
    · exact h id (.tail' hway hlast)
    · exact hopen ((htb.tail hlast).trans hic)
  · exact hopen (hcases.elim (fun hway => hway) And.left)

/-- A way to where an edge begins does not need it. -/
theorem reaches_of_edge (hkept : ∀ ⦃a b⦄, a ≠ c → r a b → r' a b) (h : ReflTransGen r a c) :
    ReflTransGen r' a c := by
  induction h using ReflTransGen.head_induction_on with
  | refl => exact .refl
  | @head a b hstep _ ih =>
    by_cases hac : a = c
    · rw [hac]
    · exact .head (hkept hac hstep) ih

end Acyclic

namespace Scene

variable {R : Type} {s s' : Scene R} {a b id d : NodeId} {n : Node R}

/-! ## Children and clones -/

/-- What a node leads to: its children, and the node that it shows. -/
theorem Tree.leads_iff (h : s.Tree) :
    s.Leads id d ↔ s.parent? d = some id ∨ s.held? id .cloneSource = some d := by
  constructor
  · rintro ⟨n, hn, hchild | hsource⟩
    · exact .inl ((h.mem_children_iff hn).1 hchild)
    · exact .inr ((held?_of_node? hn).trans hsource)
  · rintro (hparent | hsource)
    · obtain ⟨n, hn, -⟩ := h.node?_of_parent? hparent
      exact ⟨n, hn, .inl ((h.mem_children_iff hn).2 hparent)⟩
    · obtain ⟨n, hn, hheld⟩ := Option.bind_eq_some_iff.1 hsource
      exact ⟨n, hn, .inr hheld⟩

theorem Tree.reaches_of_above (h : s.Tree) (hup : s.Above a b) : s.Reaches a b := by
  induction hup using ReflTransGen.head_induction_on with
  | refl => exact .refl
  | head hp _ ih => exact ih.tail (h.leads_iff.2 (.inl hp))

/-- What a node reaches is below it, or below what the last clone on the way shows. -/
theorem Tree.above_of_reaches (h : s.Tree) (hab : s.Reaches a b) :
    s.Above a b ∨ ∃ d u, s.Reaches a d ∧ s.held? d .cloneSource = some u ∧ s.Above u b := by
  induction hab with
  | refl => exact .inl (.refl s a)
  | @tail b c hab hleads ih =>
    rcases h.leads_iff.1 hleads with hp | hsource
    · have hup : s.Above b c := .of_parent? hp (.refl s b)
      exact ih.imp (fun hab => hab.trans hup) fun ⟨d, u, had, hdu, hub⟩ =>
        ⟨d, u, had, hdu, hub.trans hup⟩
    · exact .inr ⟨b, c, hab, hsource, .refl s c⟩

/-- A clone does not show a node above it. -/
theorem Sound.not_above_source (h : s.Sound) (hsource : s.held? a .cloneSource = some b) :
    ¬s.Above b a := by
  obtain ⟨n, hn, -⟩ := Option.bind_eq_some_iff.1 hsource
  exact (h.linked.admits hn b _ hsource).apart

/-- Every cycle runs through two clones, each of which is reached from what the other one shows. -/
theorem Sound.exists_clones (h : s.Sound) (hcycle : TransGen s.Leads id id) :
    ∃ c d t u, c ≠ d ∧ s.Reaches id c ∧ s.Reaches c id ∧
      s.held? c .cloneSource = some t ∧ s.Reaches t d ∧
      s.held? d .cloneSource = some u ∧ s.Reaches u c := by
  -- The tree has no cycle, so there is a clone on the way.
  have hclone : ∃ c t, s.Reaches id c ∧ s.held? c .cloneSource = some t ∧ s.Reaches t id := by
    obtain ⟨b, hleads, hway⟩ := Relation.TransGen.head'_iff.1 hcycle
    rcases h.tree.leads_iff.1 hleads with hp | hsource
    · rcases h.tree.above_of_reaches hway with hup | ⟨c, t, hbc, hsource, hup⟩
      · exact absurd hup (h.tree.grounded.not_above_parent hp)
      · exact ⟨c, t, .head hleads hbc, hsource, h.tree.reaches_of_above hup⟩
    · exact ⟨id, b, .refl, hsource, hway⟩
  obtain ⟨c, t, hic, hct, hti⟩ := hclone
  have hci : s.Reaches c id := .head (h.tree.leads_iff.2 (.inr hct)) hti
  -- What that clone shows is not above it, so there is another clone on the way back.
  rcases h.tree.above_of_reaches (hti.trans hic) with hup | ⟨d, u, htd, hdu, hup⟩
  · exact absurd hup (h.not_above_source hct)
  · refine ⟨c, d, t, u, fun heq => ?_, hic, hci, hct, htd, hdu, h.tree.reaches_of_above hup⟩
    rw [heq] at hct hup
    exact h.not_above_source hdu hup

/-- One clone alone closes no cycle. -/
theorem Sound.acyclic_of_one_clone (h : s.Sound) {c : NodeId}
    (hone : ∀ ⦃d u⦄, s.held? d .cloneSource = some u → d = c) : Acyclic s.Leads := by
  intro id hcycle
  obtain ⟨d, e, t, u, hne, -, -, hdt, -, heu, -⟩ := h.exists_clones hcycle
  exact hne ((hone hdt).trans (hone heu).symm)

/-! ## The length of ways -/

theorem length_le_size_of_nodup (hvalid : s.nodes.Valid) (hfits : s.nodes.Fits)
    {ids : List NodeId} (hnodup : ids.Nodup) (hlive : ∀ id ∈ ids, ∃ n, s.node? id = some n) :
    ids.length ≤ s.size := by
  have hsub : ids ⊆ s.nodes.toList.map Prod.fst := by
    intro id hid
    obtain ⟨n, hn⟩ := hlive id hid
    exact List.mem_map.2 ⟨(id, n), (Arena.mem_toList hfits).2 hn, rfl⟩
  have hle := hnodup.length_le_of_subset hsub
  rwa [List.length_map, Arena.length_toList hvalid] at hle

/-- A way without return between nodes of the scene visits each node once at most. -/
theorem Sound.length_le_size (h : s.Sound) (hfits : s.nodes.Fits)
    {r : NodeId → NodeId → Prop} (hr : Acyclic r)
    (hlive : ∀ ⦃a b⦄, r a b → (∃ n, s.node? a = some n) ∧ ∃ m, s.node? b = some m) :
    ∀ {ids : List NodeId}, ids.IsChain r → ids.length ≤ s.size
  | [], _ => Nat.zero_le _
  | [_], _ => by
    obtain ⟨n, hn, -⟩ := h.tree.root
    have hroot : ∀ id ∈ [s.root], ∃ n, s.node? id = some n := by simpa using ⟨n, hn⟩
    have hle := length_le_size_of_nodup h.valid hfits (List.nodup_singleton s.root) hroot
    exact hle
  | a :: b :: ids, hchain => by
    refine length_le_size_of_nodup h.valid hfits (hr.nodup hchain) fun id hid => ?_
    obtain ⟨hab, hrest⟩ := List.isChain_cons_cons.1 hchain
    rcases List.mem_cons.1 hid with rfl | hid
    · exact (hlive hab).1
    · exact List.IsChain.induction (fun id => ∃ n, s.node? id = some n) (b :: ids) hrest
        (fun _ _ hxy _ => (hlive hxy).2) (fun _ => (hlive hab).2) id hid

/-! ## Gradients -/

/-- The node is painted with the gradient `d`. -/
def PaintedWith (s : Scene R) (id d : NodeId) : Prop :=
  ∃ r, r ≠ .cloneSource ∧ s.held? id r = some d

/-- What a node depends on: what it leads to, and what it is painted with. -/
def Needs (s : Scene R) (id d : NodeId) : Prop :=
  s.Leads id d ∨ s.PaintedWith id d

theorem Sound.needs_iff (h : s.Sound) :
    s.Needs id d ↔ s.parent? d = some id ∨ ∃ r, s.held? id r = some d := by
  rw [Needs, h.tree.leads_iff, or_assoc]
  refine or_congr_right ⟨?_, ?_⟩
  · rintro (hsource | ⟨r, -, hheld⟩)
    · exact ⟨_, hsource⟩
    · exact ⟨r, hheld⟩
  · rintro ⟨r, hheld⟩
    by_cases hr : r = .cloneSource
    · exact .inl (hr ▸ hheld)
    · exact .inr ⟨r, hr, hheld⟩

theorem Sound.node?_of_needs (h : s.Sound) (hneeds : s.Needs a b) :
    (∃ n, s.node? a = some n) ∧ ∃ m, s.node? b = some m := by
  rcases h.needs_iff.1 hneeds with hp | ⟨r, hheld⟩
  · obtain ⟨m, hm, -⟩ := parent?_eq_some_iff.1 hp
    obtain ⟨n, hn, -⟩ := h.tree.node?_of_parent? hp
    exact ⟨⟨n, hn⟩, m, hm⟩
  · obtain ⟨n, hn, -⟩ := Option.bind_eq_some_iff.1 hheld
    obtain ⟨m, hm, -⟩ := (h.linked.admits hn b r hheld).target
    exact ⟨⟨n, hn⟩, m, hm⟩

/-- The node is a gradient. -/
def IsGradient (s : Scene R) (id : NodeId) : Prop :=
  ∃ n, s.node? id = some n ∧ n.kind.isGradient = true

theorem Sound.isGradient_of_paintedWith (h : s.Sound) (hpaint : s.PaintedWith a b) :
    s.IsGradient b := by
  obtain ⟨r, hr, hheld⟩ := hpaint
  obtain ⟨n, hn, -⟩ := Option.bind_eq_some_iff.1 hheld
  obtain ⟨m, hm, hrole⟩ := (h.linked.admits hn b r hheld).target
  exact ⟨m, hm, hrole.2 hr⟩

/-- A gradient leads nowhere. -/
theorem Sound.paintedWith_of_needs (h : s.Sound) (hgradient : s.IsGradient a)
    (hneeds : s.Needs a b) : s.PaintedWith a b := by
  obtain ⟨n, hn, hkind⟩ := hgradient
  refine hneeds.resolve_left fun hleads => ?_
  rcases h.tree.leads_iff.1 hleads with hp | hsource
  · obtain ⟨m, hm, hgroup, -⟩ := h.tree.node?_of_parent? hp
    rw [hn] at hm
    cases hm
    cases hk : n.kind <;> simp [hk, Kind.isGradient, Kind.isGroup] at hkind hgroup
  · rw [held?_of_node? hn] at hsource
    cases hk : n.kind <;> simp [hk, Kind.isGradient, Node.held, Kind.source?] at hkind hsource

/-- What a gradient depends on it is painted with, step by step. -/
theorem Sound.paints_of_needs (h : s.Sound) (hgradient : s.IsGradient a)
    (hway : ReflTransGen s.Needs a b) : ReflTransGen s.PaintedWith a b ∧ s.IsGradient b := by
  induction hway with
  | refl => exact ⟨.refl, hgradient⟩
  | tail _ hneeds ih =>
    obtain ⟨hway, hgradient⟩ := ih
    have hpaint := h.paintedWith_of_needs hgradient hneeds
    exact ⟨hway.tail hpaint, h.isGradient_of_paintedWith hpaint⟩

/-- A cycle of what nodes need is one of clones and children or one of gradients, since nothing
leads from a gradient back to a node that it paints. -/
theorem Sound.acyclic_needs (h : s.Sound) (hleads : Acyclic s.Leads)
    (hpaints : Acyclic s.PaintedWith) : Acyclic s.Needs := by
  -- A way that is painted somewhere stays with gradients from there on.
  have hway : ∀ {a b}, ReflTransGen s.Needs a b → s.Reaches a b ∨
      ∃ g, s.IsGradient g ∧ ReflTransGen s.Needs a g ∧ ReflTransGen s.Needs g b := by
    intro a b hway
    induction hway with
    | refl => exact .inl .refl
    | tail hab hneeds ih =>
      rcases ih with hreach | ⟨g, hg, hag, hgb⟩
      · rcases hneeds with hstep | hpaint
        · exact .inl (hreach.tail hstep)
        · exact .inr ⟨_, h.isGradient_of_paintedWith hpaint, hab.tail (.inr hpaint), .refl⟩
      · exact .inr ⟨g, hg, hag, hgb.tail hneeds⟩
  intro id hcycle
  obtain ⟨b, hfirst, hback⟩ := Relation.TransGen.head'_iff.1 hcycle
  have hgradient : ∀ {g}, s.IsGradient g → ReflTransGen s.Needs b g → ReflTransGen s.Needs g id →
      False := by
    intro g hg hbg hgid
    -- The cycle leads through a gradient, so all of its nodes are gradients.
    have hid : s.IsGradient id := (h.paints_of_needs hg hgid).2
    have hpaint := h.paintedWith_of_needs hid hfirst
    have hback' := (h.paints_of_needs (h.isGradient_of_paintedWith hpaint) hback).1
    exact hpaints id (.head' hpaint hback')
  rcases hfirst with hfirst | hpaint
  · rcases hway hback with hreach | ⟨g, hg, hbg, hgid⟩
    · exact hleads id (.head' hfirst hreach)
    · exact hgradient hg hbg hgid
  · exact hgradient (h.isGradient_of_paintedWith hpaint) .refl hback

/-! ## Routes -/

/-- A route follows what nodes depend on, backwards. -/
theorem Sound.chain_of_route (h : s.Sound) {k : Nat} (hroute : s.Route k a b) :
    ∃ ids : List NodeId, (a :: ids).IsChain (Function.swap s.Needs) ∧ k ≤ ids.length := by
  induction hroute with
  | refl => exact ⟨[], .singleton _, Nat.le_refl 0⟩
  | @parent k id p u hp _ ih =>
    obtain ⟨ids, hchain, hk⟩ := ih
    exact ⟨p :: ids, List.isChain_cons_cons.2 ⟨h.needs_iff.2 (.inl hp), hchain⟩,
      Nat.le_succ_of_le hk⟩
  | @subscriber k id u n l hn hl _ ih =>
    obtain ⟨ids, hchain, hk⟩ := ih
    have hheld := ((h.linked.mem_subscribers hn l.node l.role).1 hl).2
    exact ⟨l.node :: ids, List.isChain_cons_cons.2 ⟨h.needs_iff.2 (.inr ⟨_, hheld⟩), hchain⟩,
      Nat.succ_le_succ hk⟩

/-- If nodes depend on each other in no cycle, routes are shorter than there are nodes. -/
theorem Sound.route_lt_size (h : s.Sound) (hfits : s.nodes.Fits) (hneeds : Acyclic s.Needs)
    {k : Nat} (hroute : s.Route k a b) : k < s.size := by
  obtain ⟨ids, hchain, hk⟩ := h.chain_of_route hroute
  have hlength := h.length_le_size hfits hneeds.swap
    (fun _ _ hab => (h.node?_of_needs hab).symm) hchain
  rw [List.length_cons] at hlength
  omega

end Scene

end Freehand
