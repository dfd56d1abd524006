import Freehand.Proofs.Scene.Fresh
import Freehand.Proofs.Scene.Reachable

/-!
# What removing a node leaves

`Scene.remove` frees the nodes of a subtree one by one, and each of them lets go of the others.  For
a node that stays the order does not matter: it forgets the freed nodes (`Node.forget`), and what it
loses by that is marked on it and on all nodes above it.

* The freed nodes are listed once each, children first and in their order (`Tree.subtree_eq`,
  `Tree.nodup_subtree`).
* Releasing one node makes every other node forget it (`Linked.forget_release`).  A reference that
  is lost marks the node and those above it (`Linked.stale_release`).
* Releasing several nodes makes the nodes that are not below one of them forget them all
  (`Linked.forget_foldl_release`).
* So removing a node has the same effect on every survivor, and observers are told of each freed
  node once (`Reachable.remove_exact`).
-/

namespace Freehand

namespace Scene

variable {R : Type} {s s' : Scene R} {id j p a : NodeId} {n m : Node R}

/-! ## The order of a subtree -/

/-- As many levels as there are slots reach the bottom of every subtree, so one more adds nothing.
-/
theorem Tree.postorder_succ (h : s.Tree) :
    ∀ {levels : Nat} {id : NodeId}, s.nodes.slots.size ≤ levels + s.depth id →
      s.postorder (levels + 1) id = s.postorder levels id := by
  intro levels
  induction levels with
  | zero =>
    intro id hlevels
    cases hn : s.node? id with
    | none => rw [postorder, postorder, hn]
    | some n =>
      have := h.depth_lt hn
      omega
  | succ levels ih =>
    intro id hlevels
    rw [postorder, postorder]
    cases hn : s.node? id with
    | none => rfl
    | some n =>
      have hchildren : n.children.flatMap (s.postorder (levels + 1)) =
          n.children.flatMap (s.postorder levels) := by
        refine List.flatMap_congr fun c hc => ih ?_
        have := h.grounded.depth_of_parent? ((h.mem_children_iff hn).1 hc)
        omega
      dsimp only
      rw [hchildren]

/-- A subtree is listed child by child, and its topmost node last. -/
theorem Tree.subtree_eq (h : s.Tree) (hn : s.node? id = some n) :
    s.subtree id = n.children.flatMap s.subtree ++ [id] := by
  have hsize : s.subtree id = s.postorder (s.nodes.slots.size + 1) id :=
    (h.postorder_succ (Nat.le_add_right _ _)).symm
  rw [hsize, postorder, hn]
  rfl

/-- No node is listed before one that is below it. -/
theorem Tree.pairwise_postorder (h : s.Tree) :
    ∀ (levels : Nat) (id : NodeId), (s.postorder levels id).Pairwise fun a b => ¬s.Above a b := by
  intro levels
  induction levels with
  | zero => exact fun _ => .nil
  | succ levels ih =>
    intro id
    rw [postorder]
    cases hn : s.node? id with
    | none => exact .nil
    | some n =>
      have hup : ∀ {c j}, c ∈ n.children → j ∈ s.postorder levels c →
          s.parent? c = some id ∧ s.Above c j := fun hc hj =>
        ⟨(h.mem_children_iff hn).1 hc,
          (above_of_mem_postorder (fun _ _ _ hk => (h.mem_children_iff hk).1) hj).1⟩
      refine List.pairwise_append.2 ⟨List.pairwise_flatMap.2 ⟨fun c _ => ih c, ?_⟩,
        List.pairwise_singleton _ id, ?_⟩
      · refine (h.nodup_children hn).imp_of_mem fun hc hd hne j hj k hk hjk => ?_
        obtain ⟨hpc, hcj⟩ := hup hc hj
        obtain ⟨hpd, hdk⟩ := hup hd hk
        exact h.not_above_sibling hpc hpd hne (hcj.trans hjk) hdk
      · intro j hj k hk hjk
        obtain ⟨c, hc, hj⟩ := List.mem_flatMap.1 hj
        obtain ⟨hpc, hcj⟩ := hup hc hj
        rw [List.mem_singleton.1 hk] at hjk
        exact h.grounded.not_above_parent hpc (hcj.trans hjk)

theorem Tree.nodup_subtree (h : s.Tree) (id : NodeId) : (s.subtree id).Nodup :=
  (h.pairwise_postorder _ id).imp fun {a b} hup (heq : a = b) => hup (heq ▸ .refl s a)

/-- Cutting a node off changes the children of a node above it only. -/
theorem Tree.subtree_cut [Scalar R] (h : s.Tree) (hn : s.node? id = some n) :
    (s.cut id n).subtree id = s.subtree id := by
  have hsame : ∀ (levels : Nat) (j : NodeId), s.Above id j →
      (s.cut id n).postorder levels j = s.postorder levels j := by
    intro levels
    induction levels with
    | zero => exact fun _ _ => rfl
    | succ levels ih =>
      intro j hup
      rw [postorder, postorder, node?_cut h hn]
      cases hm : s.node? j with
      | none => rfl
      | some m =>
        have hparent : ∀ c ∈ m.children, s.parent? c = some j := fun c =>
          (h.mem_children_iff hm).1
        have hchildren : m.children.filter (fun c => c ≠ id) = m.children := by
          refine List.filter_eq_self.2 fun c hc => decide_eq_true fun heq => ?_
          exact h.grounded.not_above_parent (hparent c hc) (heq ▸ hup)
        rw [Option.map_some]
        dsimp only
        rw [hchildren, List.flatMap_congr fun c hc => ih c (hup.trans (.of_parent? (hparent c hc)
          (.refl s j)))]
  rw [subtree, subtree, (stays_cut s id n).slots]
  exact hsame _ id (.refl s id)

end Scene

/-! ## What a node forgets -/

/-- The paint without the servers in a list. -/
def Paint.forget (freed : List NodeId) (p : Paint) : Paint :=
  if p.server?.any freed.contains then .none else p

/-- The kind without the sources in a list. -/
def Kind.forget {R : Type} (freed : List NodeId) (k : Kind R) : Kind R :=
  if k.source?.any freed.contains then .clone none else k

/-- The node with all that names a node of a list cleared, other than its place in the tree. -/
def Node.forget {R : Type} (freed : List NodeId) (n : Node R) : Node R :=
  { n with
    kind := n.kind.forget freed
    style := { n.style with fill := n.style.fill.forget freed
                            stroke := n.style.stroke.forget freed }
    subscribers := n.subscribers.filter fun k => k.node ∉ freed
    references := n.references.filter fun k => k.node ∉ freed }

theorem Paint.forget_forget (ids freed : List NodeId) (p : Paint) :
    (p.forget ids).forget freed = p.forget (ids ++ freed) := by
  cases p with
  | server id => by_cases h : id ∈ ids <;> simp [forget, server?, h]
  | none | color => rfl

theorem Kind.forget_forget {R : Type} (ids freed : List NodeId) (k : Kind R) :
    (k.forget ids).forget freed = k.forget (ids ++ freed) := by
  cases k with
  | clone source =>
    cases source with
    | none => rfl
    | some id => by_cases h : id ∈ ids <;> simp [forget, source?, h]
  | group | path | gradient => rfl

theorem Node.forget_forget {R : Type} (ids freed : List NodeId) (n : Node R) :
    (n.forget ids).forget freed = n.forget (ids ++ freed) := by
  simp only [forget, Paint.forget_forget, Kind.forget_forget, List.filter_filter,
    List.mem_append, not_or, Bool.decide_and, Bool.and_comm]

theorem Node.forget_nil {R : Type} (n : Node R) : n.forget [] = n := by
  have hpaint : ∀ p : Paint, p.forget [] = p := fun p => by cases p <;> rfl
  have hkind : n.kind.forget [] = n.kind := by
    cases n.kind with
    | clone source => cases source <;> rfl
    | group | path | gradient => rfl
  simp [forget, hpaint, hkind]

/-- What a node still holds is not among what it forgot. -/
theorem Node.held_forget {R : Type} (freed : List NodeId) (n : Node R) (r : Role) :
    (n.forget freed).held r = (n.held r).filter fun t => t ∉ freed := by
  have hpaint : ∀ p : Paint, (p.forget freed).server? = p.server?.filter fun t => t ∉ freed := by
    intro p
    cases p with
    | server t => by_cases ht : t ∈ freed <;> simp [Paint.forget, Paint.server?, Option.filter, ht]
    | none | color => rfl
  have hkind : (n.kind.forget freed).source? = n.kind.source?.filter fun t => t ∉ freed := by
    cases n.kind with
    | clone source =>
      cases source with
      | none => rfl
      | some t => by_cases ht : t ∈ freed <;> simp [Kind.forget, Kind.source?, Option.filter, ht]
    | group | path | gradient => rfl
  cases r with
  | cloneSource => exact hkind
  | fillServer => exact hpaint n.style.fill
  | strokeServer => exact hpaint n.style.stroke

/-- What a node has besides what it paints with and shows, its links and its marks. -/
def Node.bare {R : Type} (n : Node R) : Node R :=
  { n with
    kind := .clone none
    style := { n.style with fill := .none, stroke := .none }
    stale := ∅
    subscribers := []
    references := [] }

/-- A node loses only what it holds of other nodes. -/
structure Node.Fades {R : Type} (n n' : Node R) : Prop where
  bare : n'.bare = n.bare
  kind : n'.kind = n.kind ∨ n'.kind = .clone none ∧ n.kind.source?.isSome = true
  fill : n'.style.fill = n.style.fill ∨
    n'.style.fill = .none ∧ n.style.fill.server?.isSome = true
  stroke : n'.style.stroke = n.style.stroke ∨
    n'.style.stroke = .none ∧ n.style.stroke.server?.isSome = true

namespace Node.Fades

variable {R : Type} {n n' n'' : Node R}

theorem refl (n : Node R) : n.Fades n :=
  ⟨rfl, .inl rfl, .inl rfl, .inl rfl⟩

theorem trans (h : n.Fades n') (h' : n'.Fades n'') : n.Fades n'' := by
  refine ⟨h'.bare.trans h.bare, ?_, ?_, ?_⟩
  · have := h.kind
    have := h'.kind
    grind
  · have := h.fill
    have := h'.fill
    grind
  · have := h.stroke
    have := h'.stroke
    grind

/-- What is held afterwards tells whether a paint faded. -/
theorem paint_eq {id : NodeId} {p p' : Paint}
    (h : p' = p ∨ p' = .none ∧ p.server?.isSome = true)
    (hserver : p'.server? = if p.server? = some id then Option.none else p.server?) :
    p' = p.forget [id] := by
  rw [Paint.forget]
  cases hp : p.server? with
  | none =>
    have heq : p' = p := h.resolve_right fun hfaded => by simp [hp] at hfaded
    simpa using heq
  | some t =>
    by_cases ht : t = id
    · subst ht
      have hnone : p' = .none := (h.resolve_left fun heq => by simp [heq, hp] at hserver).1
      simpa using hnone
    · rw [hp, if_neg (by simpa using ht)] at hserver
      have heq : p' = p := h.resolve_right fun hfaded => by
        rw [hfaded.1] at hserver
        exact nomatch hserver
      simpa [ht] using heq

/-- A kind that lost a source at most is known by the source that is left. -/
theorem kind_eq {id : NodeId} {k k' : Kind R}
    (h : k' = k ∨ k' = .clone none ∧ k.source?.isSome = true)
    (hsource : k'.source? = if k.source? = some id then Option.none else k.source?) :
    k' = k.forget [id] := by
  rw [Kind.forget]
  cases hk : k.source? with
  | none =>
    have heq : k' = k := h.resolve_right fun hfaded => by simp [hk] at hfaded
    simpa using heq
  | some t =>
    by_cases ht : t = id
    · subst ht
      have hnone : k' = .clone none := (h.resolve_left fun heq => by simp [heq, hk] at hsource).1
      simpa using hnone
    · rw [hk, if_neg (by simpa using ht)] at hsource
      have heq : k' = k := h.resolve_right fun hfaded => by
        rw [hfaded.1] at hsource
        exact nomatch hsource
      simpa [ht] using heq

theorem eq_forget {id : NodeId} (h : n.Fades n') (hforgot : Scene.Forgot id n n') :
    n' = { n.forget [id] with stale := n'.stale } := by
  have hkind := kind_eq h.kind (hforgot.held .cloneSource)
  have hfill := paint_eq h.fill (hforgot.held .fillServer)
  have hstroke := paint_eq h.stroke (hforgot.held .strokeServer)
  have hrefs := hforgot.references
  have hsubs := hforgot.subscribers
  have hbare := h.bare
  obtain ⟨kind, ⟨fill, stroke, strokeWidth, opacity⟩, _, _, _, _, _, _, _, _, _, _, _, _⟩ := n
  obtain ⟨kind', ⟨fill', stroke', strokeWidth', opacity'⟩, _, _, _, _, _, _, _, _, _, _, _, _⟩ := n'
  simp only [Node.bare, Node.mk.injEq, Style.mk.injEq] at hbare
  simp only at hkind hfill hstroke hrefs hsubs
  simp only [forget, List.mem_singleton, hkind, hfill, hstroke, hrefs, hsubs, hbare]

end Node.Fades

namespace Scene

variable {R : Type} {s s' s'' : Scene R} {id j p a : NodeId} {n m : Node R}

/-- No node is new, and nodes lose only what they hold of others. -/
def Fading (s s' : Scene R) : Prop :=
  ∀ ⦃j n'⦄, s'.node? j = some n' → ∃ n, s.node? j = some n ∧ n.Fades n'

namespace Fading

theorem trans (h : s.Fading s') (h' : s'.Fading s'') : s.Fading s'' := by
  intro j n'' hn''
  obtain ⟨n', hn', hfades'⟩ := h' hn''
  obtain ⟨n, hn, hfades⟩ := h hn'
  exact ⟨n, hn, hfades.trans hfades'⟩

theorem of_agree (h : Agree (fun n => (n.bare, n.kind, n.style)) s s') : s.Fading s' := by
  intro j n' hn'
  obtain ⟨n, hn, heq⟩ := h.symm.node? hn'
  simp only [Prod.mk.injEq] at heq
  obtain ⟨hbare, hkind, hstyle⟩ := heq
  exact ⟨n, hn, hbare.symm, .inl hkind.symm, .inl (hstyle ▸ rfl), .inl (hstyle ▸ rfl)⟩

theorem refl (s : Scene R) : s.Fading s :=
  .of_agree (.refl _ s)

theorem foldl {α : Type} {f : Scene R → α → Scene R} (h : ∀ s a, Fading s (f s a))
    (as : List α) (s : Scene R) : s.Fading (as.foldl f s) :=
  as.foldlRecOn f (.refl s) fun t ht a _ => ht.trans (h t a)

end Fading

/-- A node that loses a target fades. -/
theorem fades_withoutTarget (target : NodeId) (role : Role) (n : Node R) :
    n.Fades (withoutTarget target role n) := by
  cases role with
  | cloneSource =>
    simp only [withoutTarget]
    split
    next h => exact ⟨rfl, .inr ⟨rfl, by rw [h]; rfl⟩, .inl rfl, .inl rfl⟩
    next => exact ⟨rfl, .inl rfl, .inl rfl, .inl rfl⟩
  | fillServer =>
    refine ⟨rfl, .inl rfl, ?_, .inl rfl⟩
    rw [withoutTarget, Paint.without]
    split
    next h => exact .inr ⟨rfl, by rw [h]; rfl⟩
    next => exact .inl rfl
  | strokeServer =>
    refine ⟨rfl, .inl rfl, .inl rfl, ?_⟩
    rw [withoutTarget, Paint.without]
    split
    next h => exact .inr ⟨rfl, by rw [h]; rfl⟩
    next => exact .inl rfl

theorem fading_dropReference (target : NodeId) (s : Scene R) (k : Link) :
    s.Fading (dropReference target s k) := by
  have hmodify : s.Fading (s.modify k.node (withoutTarget target k.role)) := by
    intro j n' hn'
    rw [node?_modify] at hn'
    split at hn'
    · obtain ⟨n, hn, rfl⟩ := Option.map_eq_some_iff.1 hn'
      exact ⟨n, hn, fades_withoutTarget target k.role n⟩
    · exact ⟨n', hn', .refl n'⟩
  exact hmodify.trans (.of_agree (agree_touch (fun _ _ => rfl) _ _ _))

theorem fading_free (s : Scene R) (id : NodeId) :
    s.Fading { s with nodes := s.nodes.remove id } := by
  intro j n' hn'
  rw [node?_free] at hn'
  split at hn'
  · cases hn'
  · exact ⟨n', hn', .refl n'⟩

theorem fading_release (s : Scene R) (id : NodeId) : s.Fading (s.release id) := by
  rw [release]
  split
  · exact .refl s
  next n _ =>
    have hclear : s.Fading (s.modify id fun n => { n with subscribers := [], references := [] }) :=
      .of_agree (.modify fun _ _ => rfl)
    refine ((hclear.trans (.foldl (fading_dropReference id) n.subscribers _)).trans
      (.foldl ?_ n.references _)).trans (fading_free _ id)
    exact fun s l => .of_agree (agree_unlink (fun _ _ _ => rfl) s id l.node l.role)

/-! ## Releasing one node -/

/-- Every other node forgets the node that is released, and keeps all the rest. -/
theorem Linked.forget_release (h : s.Linked) (hj : j ≠ id) (hn : s.node? j = some n)
    (hid : ∃ k, s.node? id = some k) :
    ∃ n', (s.release id).node? j = some n' ∧ n' = { n.forget [id] with stale := n'.stale } := by
  obtain ⟨n', hn', hforgot⟩ := h.node?_release hj hn hid
  obtain ⟨k, hk, hfades⟩ := fading_release s id hn'
  rw [hn] at hk
  cases hk
  exact ⟨n', hn', hfades.eq_forget hforgot⟩

theorem parent?_release (s : Scene R) (hj : j ≠ id) : (s.release id).parent? j = s.parent? j := by
  have hplace := place_release s hj
  cases hn : s.node? j with
  | none =>
    rw [hn, Option.map_none, Option.map_eq_none_iff] at hplace
    rw [parent?, parent?, hplace, hn]
  | some n =>
    rw [hn, Option.map_some] at hplace
    obtain ⟨n', hn', heq⟩ := Option.map_eq_some_iff.1 hplace
    simp only [Node.place, Prod.mk.injEq] at heq
    rw [parent?_of_node? hn, parent?_of_node? hn', heq.2.1]

/-- The nodes above one that is not below the released node stay above it. -/
theorem Above.release (hup : s.Above a j) (hapart : ¬s.Above id j) :
    (s.release id).Above a j := by
  induction hup using Relation.ReflTransGen.head_induction_on with
  | refl => exact .refl _ a
  | @head c q hq _ ih =>
    have hc : c ≠ id := fun heq => hapart (by rw [heq]; exact .refl s id)
    have hq' := (parent?_release s hc).trans hq
    exact .of_parent? hq' (ih fun hup => hapart (.of_parent? hq hup))

theorem above_of_release (hup : (s.release id).Above a j) : s.Above a j := by
  refine hup.mono fun c q hq => ?_
  have hc : c ≠ id := fun heq => by
    rw [heq, parent?, node?_release_self] at hq
    cases hq
  exact (parent?_release s hc).symm.trans hq

theorem above_dropReference_iff (target : NodeId) (s : Scene R) (k : Link) {a j : NodeId} :
    (dropReference target s k).Above a j ↔ s.Above a j :=
  above_iff_of_agree ((lasting_dropReference target s k).map fun lasting => lasting.1.2.1)

/-- A subscriber that drops a reference is marked, and so are the nodes above it. -/
theorem stale_dropReference (h : s.Rising) (hg : s.Grounded) (target : NodeId) {k : Link}
    (hup : s.Above a k.node) (hm : (dropReference target s k).node? a = some m) :
    k.role.stale ⊆ m.stale := by
  have hagree := agree_withoutTarget target s k
  have hparent : Agree Node.parent s (s.modify k.node (withoutTarget target k.role)) :=
    hagree.map Prod.fst
  have hground := hg.mono fun c q hq => by rwa [parent?_eq_of_agree hparent] at hq
  rw [dropReference, (h.of_agree hagree).node?_touch_of_above hground
    ((above_iff_of_agree hparent).2 hup)] at hm
  obtain ⟨n, -, rfl⟩ := Option.map_eq_some_iff.1 hm
  exact Flags.subset_union_right _ _

theorem stale_foldl_dropReference (target : NodeId) {k : Link} :
    ∀ {ks : List Link} {s : Scene R}, s.Rising → s.Grounded → k ∈ ks → s.Above a k.node →
      (ks.foldl (dropReference target) s).node? a = some m → k.role.stale ⊆ m.stale
  | l :: ks, s, h, hg, hk, hup, hm => by
    rcases List.mem_cons.1 hk with heq | hin
    · obtain ⟨n, hn, hsub, -⟩ := Wears.foldl (wears_dropReference target) ks _ hm
      rw [← heq] at hn
      exact Flags.subset_trans (stale_dropReference h hg target hup hn) hsub
    · exact stale_foldl_dropReference target (h.dropReference hg target l)
        (hg.dropReference target l) hin ((above_dropReference_iff target s l).2 hup) hm

/-- A node that loses a reference is marked, and so are the nodes above it. -/
theorem Linked.stale_release (h : s.Linked) (hr : s.Rising) (hg : s.Grounded)
    (hn : s.node? j = some n) {r : Role} (href : ⟨id, r⟩ ∈ n.references) (hup : s.Above a j)
    (hm : (s.release id).node? a = some m) : r.stale ⊆ m.stale := by
  obtain ⟨⟨⟨k, hk, -⟩, -⟩, hsub⟩ := h.subscribed hn href
  have hclear : Agree (fun n => (n.parent, n.stale)) s
      (s.modify id fun n => { n with subscribers := [], references := [] }) :=
    .modify fun _ _ => rfl
  have hparent := hclear.map Prod.fst
  have hground := hg.mono fun c q hq => by rwa [parent?_eq_of_agree hparent] at hq
  rw [Scene.release, hk] at hm
  dsimp only at hm
  rw [node?_free] at hm
  split at hm
  · cases hm
  · have hunlink := Wears.foldl (fun s (l : Link) =>
      Wears.of_agree (agree_unlink (fun _ _ _ => rfl) s id l.node l.role)) k.references _ hm
    obtain ⟨l, hl, hgrows, -⟩ := hunlink
    exact Flags.subset_trans (stale_foldl_dropReference id (hr.of_agree hclear) hground
      (hsub k hk) ((above_iff_of_agree hparent).2 hup) hl) hgrows

/-! ## Releasing several nodes -/

/-- A node below none of the released ones forgets them all, and is marked for each reference that
it loses, with the nodes above it. -/
theorem Linked.forget_foldl_release :
    ∀ {freed : List NodeId} {s : Scene R} {n : Node R}, s.Linked → s.Rising → s.Grounded →
      freed.Nodup → (∀ id ∈ freed, ∃ k, s.node? id = some k) →
      (∀ id ∈ freed, ¬s.Above id j) → s.node? j = some n →
      (∃ n', (freed.foldl Scene.release s).node? j = some n' ∧
        n' = { n.forget freed with stale := n'.stale }) ∧
      ∀ l ∈ n.references, l.node ∈ freed → ∀ a m, s.Above a j →
        (freed.foldl Scene.release s).node? a = some m → l.role.stale ⊆ m.stale
  | [], s, n, _, _, _, _, _, _, hn => by
    exact ⟨⟨n, hn, by rw [n.forget_nil]⟩, fun l _ hl => nomatch hl⟩
  | id :: freed, s, n, h, hr, hg, hnodup, hlive, hapart, hn => by
    obtain ⟨hid, hnodup⟩ := List.nodup_cons.1 hnodup
    have hj : j ≠ id := fun heq => hapart id List.mem_cons_self (heq ▸ .refl s j)
    obtain ⟨n₁, hn₁, heq⟩ := h.forget_release hj hn (hlive id List.mem_cons_self)
    have hlive' : ∀ x ∈ freed, ∃ k, (s.release id).node? x = some k := by
      intro x hx
      obtain ⟨k, hk⟩ := hlive x (List.mem_cons_of_mem _ hx)
      have hne : x ≠ id := fun heq => hid (by rw [← heq]; exact hx)
      obtain ⟨k', hk', -⟩ := h.forget_release hne hk (hlive id List.mem_cons_self)
      exact ⟨k', hk'⟩
    have hapart' : ∀ x ∈ freed, ¬(s.release id).Above x j := fun x hx hup =>
      hapart x (List.mem_cons_of_mem _ hx) (above_of_release hup)
    obtain ⟨⟨n', hn', heq'⟩, hmarks⟩ := forget_foldl_release (h.release id) (hr.release hg id)
      (hg.release id) hnodup hlive' hapart' hn₁
    refine ⟨⟨n', hn', ?_⟩, fun l hl hfreed a m hup hm => ?_⟩
    · have hforget : (n.forget [id]).forget freed = n.forget (id :: freed) :=
        n.forget_forget [id] freed
      rw [heq', heq, ← hforget]
      rfl
    · by_cases hl' : l.node = id
      · -- the mark is set when `id` is released, and stays
        obtain ⟨k, hk, hgrows, -⟩ := Wears.foldl wears_release freed _ hm
        have href : (⟨id, l.role⟩ : Link) ∈ n.references := by rw [← hl']; exact hl
        exact Flags.subset_trans (h.stale_release hr hg hn href hup hk) hgrows
      · have hin : l.node ∈ freed := (List.mem_cons.1 hfreed).resolve_left hl'
        have hl₁ : l ∈ n₁.references := by
          rw [heq]
          exact List.mem_filter.2 ⟨hl, by simpa using hl'⟩
        exact hmarks l hl₁ hin a m (hup.release (hapart id List.mem_cons_self)) hm

/-! ## Removing a node -/

variable [Scalar R] {ω : Type}

/-- The nodes that are freed, and what the scene is in which they are. -/
theorem Sound.cut (h : s.Sound) (hn : s.node? id = some n) :
    (s.cut id n).Linked ∧ (s.cut id n).Rising ∧ (s.cut id n).Grounded := by
  have hlinks : Agree (fun n => (n.links, n.held)) s (s.cut id n) :=
    agree_cut h.tree hn fun _ _ => rfl
  have hmarks : Agree (fun n => (n.parent, n.stale)) s (s.cut id n) :=
    agree_cut h.tree hn fun _ _ => rfl
  have hparent : ∀ c q, (s.cut id n).parent? c = some q → s.parent? c = some q := fun c q hq => by
    rwa [parent?_eq_of_agree (hmarks.map Prod.fst)] at hq
  exact ⟨h.linked.of_agree hlinks hparent, h.rising.of_agree hmarks, h.tree.grounded.mono hparent⟩

/-- A node that is not below the removed one loses it as a child and forgets all that is freed. -/
theorem Sound.forget_remove (h : s.Sound) {freed : List NodeId}
    (hrem : s.remove id = .ok (s', freed)) (hm : s.node? j = some m) (hup : ¬s.Above id j) :
    (∃ m', s'.node? j = some m' ∧ m.stale ⊆ m'.stale ∧ m' = { m.forget freed with
      children := m.children.filter fun c => c ∉ freed, stale := m'.stale }) ∧
    ∀ l ∈ m.references, l.node ∈ freed → ∀ a k, s.Above a j → s'.node? a = some k →
      l.role.stale ⊆ k.stale := by
  obtain ⟨-, n, hn, hfreed, rfl⟩ := eq_of_remove_eq_ok hrem
  obtain ⟨hlinked, hrising, hgrounded⟩ := h.cut hn
  have hmem : ∀ {x}, x ∈ freed ↔ s.Above id x ∧ ∃ k, s.node? x = some k := by
    rw [hfreed]
    exact h.tree.mem_subtree_cut hn
  have habove : ∀ {a x}, (s.cut id n).Above a x ↔ s.Above a x :=
    above_iff_of_agree (agree_cut h.tree hn fun _ _ => rfl)
  have hnodup : freed.Nodup := by
    rw [hfreed, h.tree.subtree_cut hn]
    exact h.tree.nodup_subtree id
  have hlive : ∀ x ∈ freed, ∃ k, (s.cut id n).node? x = some k := by
    intro x hx
    obtain ⟨-, k, hk⟩ := hmem.1 hx
    rw [node?_cut h.tree hn, hk]
    exact ⟨_, rfl⟩
  have hapart : ∀ x ∈ freed, ¬(s.cut id n).Above x j := fun x hx hxj =>
    hup ((hmem.1 hx).1.trans (habove.1 hxj))
  have hmcut : (s.cut id n).node? j =
      some { m with children := m.children.filter fun c => c ≠ id } := by
    rw [node?_cut h.tree hn, hm]
    rfl
  obtain ⟨⟨m₁, hm₁, heq⟩, hmarks⟩ :=
    hlinked.forget_foldl_release hrising hgrounded hnodup hlive hapart hmcut
  -- Of the children, `id` alone is freed: the others would be below it with their parent.
  have hchildren : (m.children.filter fun c => c ≠ id) = m.children.filter fun c => c ∉ freed := by
    refine List.filter_congr fun c hc =>
      decide_eq_decide.2 (not_congr ⟨fun heq => ?_, fun hin => ?_⟩)
    · rw [heq]
      exact hmem.2 ⟨.refl s id, n, hn⟩
    · by_contra hne
      exact hup ((hmem.1 hin).1.parent ((h.tree.mem_children_iff hm).1 hc) (Ne.symm hne))
  refine ⟨?_, fun l hl hin a k ha hk => ?_⟩
  · have hunmarked : Agree (fun n => { n with stale := ∅ }) (freed.foldl release (s.cut id n))
        ((freed.foldl release (s.cut id n)).touchParent n.parent) :=
      agree_touchParent (fun _ _ => rfl) _ _
    obtain ⟨m', hm', hsame⟩ := hunmarked.node? hm₁
    obtain ⟨k, hk, hgrows, -⟩ :=
      ((Wears.foldl wears_release freed _).trans (wears_touchParent _ n.parent)) hm'
    rw [hmcut] at hk
    cases hk
    refine ⟨m', hm', hgrows, ?_⟩
    have hm'eq := congrArg (fun k : Node R => { k with stale := m'.stale }) hsame
    refine hm'eq.trans ?_
    rw [heq, ← hchildren]
    rfl
  · obtain ⟨k₁, hk₁, hgrows, -⟩ := wears_touchParent _ _ hk
    exact Flags.subset_trans (hmarks l hl hin a k₁ (habove.2 ha) hk₁) hgrows

/-- Removing a node other than the root succeeds.  It frees the nodes at and below it, of which the
observers are told one by one, each node after its children and these in their order.  All others
stay as they are but for what they hold of freed nodes and for marks: those that lose a reference
carry the marks of its role, with all nodes above them, and the parent those of its children. -/
theorem Reachable.remove_exact {st : Stage R ω} (h : st.scene.Reachable)
    (hfits : st.scene.nodes.Fits) (l : Listener R ω) (hid : id ≠ st.scene.root)
    (hn : st.scene.node? id = some n) :
    ∃ st' freed, st.remove l id = .ok st' ∧ freed = st.scene.subtree id ∧ freed.Nodup ∧
      (∀ k m, st.scene.node? k = some m →
        st.scene.subtree k = m.children.flatMap st.scene.subtree ++ [k]) ∧
      (∀ j, j ∈ freed ↔ st.scene.Above id j ∧ ∃ m, st.scene.node? j = some m) ∧
      st'.observers = st.observers ∧
      st'.world =
        freed.foldl (fun w j => st.observers.foldl (fun w o => l.released o j w) w) st.world ∧
      (∀ j, (∃ m, st'.scene.node? j = some m) ↔
        (∃ m, st.scene.node? j = some m) ∧ ¬st.scene.Above id j) ∧
      (∀ j m', st'.scene.node? j = some m' → (∀ c ∈ m'.children, c ∉ freed) ∧
        (∀ k ∈ m'.references, k.node ∉ freed) ∧ (∀ k ∈ m'.subscribers, k.node ∉ freed) ∧
        ∀ r, ∀ t ∈ m'.held r, t ∉ freed) ∧
      (∀ j m m', st.scene.node? j = some m → st'.scene.node? j = some m' → m.stale ⊆ m'.stale ∧
        m' = { m.forget freed with
          children := m.children.filter fun c => c ∉ freed, stale := m'.stale } ∧
        ∀ k ∈ m.references, k.node ∈ freed → m'.held k.role = none ∧
          ∀ a m', st.scene.Above a j → st'.scene.node? a = some m' → k.role.stale ⊆ m'.stale) ∧
      ∀ p m', n.parent = some p → st'.scene.node? p = some m' → Flags.membership ⊆ m'.stale := by
  have hsound := h.sound hfits
  have htree := hsound.tree
  have hrem := remove_eq_ok hid hn
  have hfreed : (st.scene.cut id n).subtree id = st.scene.subtree id := htree.subtree_cut hn
  have hmem : ∀ j, j ∈ st.scene.subtree id ↔
      st.scene.Above id j ∧ ∃ m, st.scene.node? j = some m := fun j => by
    rw [← hfreed]
    exact htree.mem_subtree_cut hn
  rw [hfreed] at hrem
  obtain ⟨s', hs'⟩ : ∃ s', (((st.scene.subtree id).foldl release (st.scene.cut id n)).touchParent
      n.parent) = s' := ⟨_, rfl⟩
  rw [hs'] at hrem
  have hsurvive : ∀ {j m}, s'.node? j = some m →
      ¬st.scene.Above id j ∧ ∃ m, st.scene.node? j = some m := node?_of_remove htree hrem
  refine ⟨Stage.announce l { st with scene := s' } (st.scene.subtree id), _, ?_, rfl,
    htree.nodup_subtree id, fun k m => htree.subtree_eq, hmem, rfl, rfl, fun j => ?_,
    fun j m' hm' => ?_, fun j m m' hm hm' => ?_, fun p m' hp hm' => ?_⟩
  · rw [Stage.remove, hrem]
    rfl
  · constructor
    · rintro ⟨m', hm'⟩
      exact (hsurvive hm').symm
    · rintro ⟨⟨m, hm⟩, hup⟩
      obtain ⟨⟨m', hm', -⟩, -⟩ := hsound.forget_remove hrem hm hup
      exact ⟨m', hm'⟩
  · obtain ⟨hup, m, hm⟩ := hsurvive hm'
    obtain ⟨⟨k, hk, -, heq⟩, -⟩ := hsound.forget_remove hrem hm hup
    have heq : m' = _ := (Option.some.inj (hm'.symm.trans hk)).trans heq
    refine ⟨fun c hc => ?_, fun k hk => ?_, fun k hk => ?_, fun r t ht => ?_⟩
    · rw [heq] at hc
      exact of_decide_eq_true (List.mem_filter.1 hc).2
    · rw [heq] at hk
      exact of_decide_eq_true (List.mem_filter.1 hk).2
    · rw [heq] at hk
      exact of_decide_eq_true (List.mem_filter.1 hk).2
    · have hheld : m'.held r = (m.forget (st.scene.subtree id)).held r := by
        rw [heq]
        rfl
      rw [hheld, Node.held_forget] at ht
      exact of_decide_eq_true (Option.mem_filter_iff.1 ht).2
  · obtain ⟨hup, -⟩ := hsurvive hm'
    obtain ⟨⟨k, hk, hgrows, heq⟩, hmarks⟩ := hsound.forget_remove hrem hm hup
    cases hm'.symm.trans hk
    refine ⟨hgrows, heq, fun l hl hin => ⟨?_, hmarks l hl hin⟩⟩
    have hheld : m.held l.role = some l.node := by
      rw [← held?_of_node? hm]
      exact (hsound.linked.holds_iff hm l.node l.role).2 hl
    have hforgot : m'.held l.role = (m.forget (st.scene.subtree id)).held l.role := by
      rw [heq]
      rfl
    rw [hforgot, Node.held_forget, hheld]
    simp [Option.filter, hin]
  · rw [Stage.announce, ← hs', hp, touchParent] at hm'
    obtain ⟨-, -, -, hmark⟩ := stale_touch _ p _ hm'
    exact hmark rfl

omit [Scalar R] in
/-- Observers that note the nodes that are freed. -/
def releases : Listener R (List NodeId) :=
  { modified := fun _ _ _ st => st
    released := fun _ id w => w ++ [id]
    completed := fun _ st => st }

/-- The sketch with an observer. -/
def watched : Stage Float (List NodeId) :=
  ⟨sketch, [0], 1, []⟩

/-- Removing the group frees the path in it first, which the clone then no longer shows. -/
theorem Reachable.remove_exact_sketch : ∃ st' freed, watched.remove releases ⟨1, 0⟩ = .ok st' ∧
    freed = [⟨2, 0⟩, ⟨1, 0⟩] ∧ st'.world = freed ∧
    ∃ m', st'.scene.node? ⟨3, 0⟩ = some m' ∧ m'.held .cloneSource = none := by
  have hgroup : (sketch.node? ⟨1, 0⟩).isSome = true := by decide
  obtain ⟨n, hn⟩ := Option.isSome_iff_exists.1 hgroup
  have hclone : (sketch.node? ⟨3, 0⟩).map Node.references = some [⟨⟨2, 0⟩, .cloneSource⟩] := by
    decide
  obtain ⟨m, hm, hrefs⟩ := Option.map_eq_some_iff.1 hclone
  have hreach : watched.scene.Reachable := reachable_sketch
  obtain ⟨st', freed, hok, hfreed, -, -, hmem, -, hworld, hlive, -, hrest, -⟩ :=
    hreach.remove_exact (by decide) releases (by decide) hn
  have hlist : freed = [⟨2, 0⟩, ⟨1, 0⟩] := hfreed.trans (by decide)
  have hup : ¬watched.scene.Above ⟨1, 0⟩ ⟨3, 0⟩ := fun hup => by
    have hin := (hmem ⟨3, 0⟩).2 ⟨hup, m, hm⟩
    rw [hlist] at hin
    exact absurd hin (by decide)
  obtain ⟨m', hm'⟩ := (hlive ⟨3, 0⟩).2 ⟨⟨m, hm⟩, hup⟩
  obtain ⟨-, -, hlost⟩ := hrest _ m m' hm hm'
  refine ⟨st', freed, hok, hlist, ?_, m', hm', ?_⟩
  · rw [hworld, hlist]
    rfl
  · exact (hlost ⟨⟨2, 0⟩, .cloneSource⟩ (by rw [hrefs]; exact List.mem_singleton_self _)
      (by rw [hlist]; decide)).1

end Scene

end Freehand
