import Freehand.Proofs.Scene.Links

/-!
# Links and freed nodes

Freeing a node lets its subscribers drop their references to it and lets its targets forget it.  In
a linked scene these are all links from it and to it, so what is left is linked again
(`Linked.release`).

The scene need not be a tree for that: a subtree is freed node by node, and the nodes that are still
there may have lost their children or have been painted with a gradient that is gone.
-/

namespace Freehand.Scene

variable {R : Type} {s s' : Scene R} {id j t : NodeId} {r : Role} {n n' : Node R} {ks : List Link}

/-! ## Subscribers drop their references -/

/-- A node that loses a target in a role keeps its other references. -/
theorem references_withoutTarget (t : NodeId) (r : Role) (n : Node R) :
    (withoutTarget t r n).references = n.references.filter fun l => l ≠ ⟨t, r⟩ := by
  cases r with
  | cloneSource =>
    simp only [withoutTarget]
    split <;> rfl
  | fillServer => rfl
  | strokeServer => rfl

theorem subscribers_withoutTarget (t : NodeId) (r : Role) (n : Node R) :
    (withoutTarget t r n).subscribers = n.subscribers := by
  cases r with
  | cloneSource =>
    simp only [withoutTarget]
    split <;> rfl
  | fillServer => rfl
  | strokeServer => rfl

/-- A clone that loses its source stays a clone, and no node becomes a gradient. -/
theorem isGradient_withoutTarget (t : NodeId) (r : Role) (n : Node R) :
    (withoutTarget t r n).kind.isGradient = n.kind.isGradient := by
  cases r with
  | cloneSource =>
    simp only [withoutTarget]
    split
    next h => cases hk : n.kind <;> simp_all [Kind.source?, Kind.isGradient]
    next => rfl
  | fillServer => rfl
  | strokeServer => rfl

theorem server?_without (t : NodeId) (p : Paint) :
    (p.without t).server? = if p.server? = some t then none else p.server? := by
  rw [Paint.without]
  split <;> rfl

/-- What a node holds in a role is forgotten if it is the target, and kept otherwise. -/
theorem held_withoutTarget (t : NodeId) (r : Role) (n : Node R) (r' : Role) :
    (withoutTarget t r n).held r' = if n.held r' = some t ∧ r' = r then none else n.held r' := by
  cases r with
  | cloneSource =>
    simp only [withoutTarget]
    split
    next h =>
      cases r' with
      | cloneSource => exact (if_pos ⟨h, rfl⟩).symm
      | fillServer => simp [Node.held]
      | strokeServer => simp [Node.held]
    next h => cases r' <;> simp [Node.held, h]
  | fillServer => cases r' <;> simp [withoutTarget, Node.held, server?_without]
  | strokeServer => cases r' <;> simp [withoutTarget, Node.held, server?_without]

/-- What is left of the node `j` after the subscribers `ks` dropped their references to `id`. -/
structure Dropped (id : NodeId) (ks : List Link) (j : NodeId) (n n' : Node R) : Prop where
  references : n'.references = n.references.filter fun l => ¬(l.node = id ∧ ⟨j, l.role⟩ ∈ ks)
  subscribers : n'.subscribers = n.subscribers
  gradient : n'.kind.isGradient = n.kind.isGradient
  held : ∀ r, n'.held r = if n.held r = some id ∧ ⟨j, r⟩ ∈ ks then none else n.held r

theorem Dropped.nil (id j : NodeId) (n : Node R) : Dropped id [] j n n :=
  ⟨by simp, rfl, rfl, by simp⟩

/-- What the first subscriber dropped and what the others drop adds up. -/
theorem Dropped.cons {k : Link} {m : Node R} (h : Dropped id [k] j n m)
    (h' : Dropped id ks j m n') : Dropped id (k :: ks) j n n' := by
  refine ⟨?_, h'.subscribers.trans h.subscribers, h'.gradient.trans h.gradient, fun r => ?_⟩
  · rw [h'.references, h.references, List.filter_filter]
    refine List.filter_congr fun l _ => ?_
    simp only [List.mem_cons, List.not_mem_nil, or_false]
    grind
  · rw [h'.held, h.held]
    simp only [List.mem_cons, List.not_mem_nil, or_false]
    grind

/-- Only the subscriber itself drops a reference, and it drops the one reference of that role. -/
theorem node?_dropReference (id : NodeId) (s : Scene R) (k : Link) (hn : s.node? j = some n) :
    ∃ n', (dropReference id s k).node? j = some n' ∧ Dropped id [k] j n n' := by
  have hmark : Agree (fun n => (n.references, n.subscribers, n.kind.isGradient, n.held))
      (s.modify k.node (withoutTarget id k.role)) (dropReference id s k) :=
    agree_touch (fun _ _ => rfl) _ _ _
  have hdrop : ∃ m, (s.modify k.node (withoutTarget id k.role)).node? j = some m ∧
      Dropped id [k] j n m := by
    rw [node?_modify, hn]
    split
    next hj =>
      refine ⟨_, rfl, ?_, subscribers_withoutTarget _ _ n, isGradient_withoutTarget _ _ n, ?_⟩
      · rw [references_withoutTarget]
        refine List.filter_congr fun l _ => ?_
        cases l
        cases k
        simp_all
      · intro r
        rw [held_withoutTarget]
        cases k
        simp_all
    next hj =>
      have hne : ∀ r, (⟨j, r⟩ : Link) ∉ [k] := by
        intro r hin
        exact hj (by rw [← List.mem_singleton.1 hin])
      exact ⟨n, rfl, by simp [hne], rfl, rfl, by simp [hne]⟩
  obtain ⟨m, hm, hdropped⟩ := hdrop
  obtain ⟨n', hn', heq⟩ := hmark.node? hm
  simp only [Prod.mk.injEq] at heq
  obtain ⟨hrefs, hsubs, hgradient, hheld⟩ := heq
  refine ⟨n', hn', hrefs.trans hdropped.references, hsubs.trans hdropped.subscribers,
    hgradient.trans hdropped.gradient, fun r => ?_⟩
  rw [hheld]
  exact hdropped.held r

/-- Each of several subscribers drops its reference, whatever their order. -/
theorem node?_foldl_dropReference (id : NodeId) :
    ∀ (ks : List Link) (s : Scene R) {n : Node R}, s.node? j = some n →
      ∃ n', (ks.foldl (dropReference id) s).node? j = some n' ∧ Dropped id ks j n n' := by
  intro ks
  induction ks with
  | nil => exact fun s n hn => ⟨n, hn, .nil id j n⟩
  | cons k ks ih =>
    intro s n hn
    obtain ⟨m, hm, hfirst⟩ := node?_dropReference id s k hn
    obtain ⟨n', hn', hrest⟩ := ih (dropReference id s k) hm
    exact ⟨n', hn', hfirst.cons hrest⟩

/-! ## Targets forget their subscriber -/

/-- Taking back the references of a freed node takes it off the lists of the nodes it referenced. -/
theorem node?_foldl_unlink (id : NodeId) (hj : j ≠ id) :
    ∀ (ls : List Link) (s : Scene R),
      (ls.foldl (fun s l => s.unlink id l.node l.role) s).node? j = (s.node? j).map fun n =>
        { n with subscribers := n.subscribers.filter fun k => ¬(k.node = id ∧ ⟨j, k.role⟩ ∈ ls) }
    := by
  intro ls
  induction ls with
  | nil =>
    intro s
    cases hn : s.node? j <;> simp [hn]
  | cons l ls ih =>
    intro s
    rw [List.foldl_cons, ih, node?_unlink, Option.map_map]
    refine congrArg (fun f => (s.node? j).map f) (funext fun n => ?_)
    simp only [Function.comp, if_neg hj]
    congr 1
    split
    next ht =>
      rw [List.filter_filter]
      refine List.filter_congr fun k _ => ?_
      cases k
      cases l
      simp_all
      grind
    next ht =>
      refine List.filter_congr fun k _ => ?_
      cases l
      simp_all

/-! ## Freeing a node -/

/-- What is left of a node after the node `id` went away: it neither references it nor is referenced
by it. -/
structure Forgot (id : NodeId) (n n' : Node R) : Prop where
  references : n'.references = n.references.filter fun l => l.node ≠ id
  subscribers : n'.subscribers = n.subscribers.filter fun l => l.node ≠ id
  gradient : n'.kind.isGradient = n.kind.isGradient
  held : ∀ r, n'.held r = if n.held r = some id then none else n.held r

/-- In a linked scene every node forgets the freed node: its subscribers drop it, and the nodes that
it referenced strike it off. -/
theorem Linked.node?_release (h : s.Linked) (hj : j ≠ id) (hn : s.node? j = some n)
    (hid : ∃ k, s.node? id = some k) :
    ∃ n', (s.release id).node? j = some n' ∧ Forgot id n n' := by
  obtain ⟨k, hk⟩ := hid
  have hclear : (s.modify id fun n => { n with subscribers := [], references := [] }).node? j =
      some n := by
    rw [node?_modify_of_ne s _ hj, hn]
  obtain ⟨m, hm, hdropped⟩ := node?_foldl_dropReference id k.subscribers _ hclear
  rw [release, hk]
  dsimp only
  rw [node?_free, if_neg hj, node?_foldl_unlink id hj, hm]
  refine ⟨_, rfl, ?_, ?_, hdropped.gradient, fun r => (hdropped.held r).trans ?_⟩
  · rw [hdropped.references]
    refine List.filter_congr fun l hl => ?_
    by_cases hnode : l.node = id
    · have hsub : ⟨j, l.role⟩ ∈ k.subscribers :=
        (h.subscribed hn (t := id) (r := l.role) (by rw [← hnode]; exact hl)).2 k hk
      simp [hnode, hsub]
    · simp [hnode]
  · show m.subscribers.filter _ = _
    rw [hdropped.subscribers]
    refine List.filter_congr fun l hl => ?_
    by_cases hnode : l.node = id
    · obtain ⟨k', hk', href⟩ := h.referenced hn (o := id) (r := l.role) (by rw [← hnode]; exact hl)
      rw [hk] at hk'
      cases hk'
      simp [hnode, href]
    · simp [hnode]
  · by_cases hheld : n.held r = some id
    · have href := (h.holds_iff hn id r).1 ((held?_of_node? hn).trans hheld)
      simp [hheld, (h.subscribed hn href).2 k hk]
    · simp [hheld]

/-- No node appears when one is freed, and all others stay. -/
theorem Linked.node?_of_release (h : s.Linked) (hid : ∃ k, s.node? id = some k)
    (hn' : (s.release id).node? j = some n') :
    j ≠ id ∧ ∃ n, s.node? j = some n ∧ n'.parent = n.parent ∧ Forgot id n n' := by
  have hj : j ≠ id := fun hj => by
    rw [hj, node?_release_self] at hn'
    cases hn'
  have hplace := place_release s hj
  rw [hn'] at hplace
  obtain ⟨n, hn, heq⟩ := Option.map_eq_some_iff.1 hplace.symm
  obtain ⟨k, hk, hforgot⟩ := h.node?_release hj hn hid
  rw [hn'] at hk
  cases hk
  exact ⟨hj, n, hn, (congrArg (fun place => place.2.1) heq.symm :), hforgot⟩

/-- A scene stays linked when a node is freed: what the two ends of a link forget is the same. -/
theorem Linked.release (h : s.Linked) (id : NodeId) : (s.release id).Linked := by
  by_cases hid : ∃ k, s.node? id = some k
  · refine Wired.restrict h (fun o t _ => decide (o ≠ id ∧ t ≠ id)) (fun j n' hn' => ?_) ?_ ?_
    · obtain ⟨hj, n, hn, -, hforgot⟩ := h.node?_of_release hid hn'
      refine ⟨n, hn, hforgot.gradient, ?_, ?_, fun r => ?_⟩
      · rw [hforgot.references]
        simp [hj]
      · rw [hforgot.subscribers]
        simp [hj]
      · rw [held?_of_node? hn', held?_of_node? hn, hforgot.held]
        cases n.held r <;> simp [hj, Option.filter_some]
    · intro o t r hkeep j n hj hn
      obtain ⟨ho, ht⟩ := of_decide_eq_true hkeep
      have hne : j ≠ id := by
        rcases hj with rfl | rfl
        · exact ho
        · exact ht
      obtain ⟨n', hn', -⟩ := h.node?_release hne hn hid
      exact ⟨n', hn'⟩
    · intro c p hp
      obtain ⟨n', hn', hparent⟩ := parent?_eq_some_iff.1 hp
      obtain ⟨-, n, hn, hsame, -⟩ := h.node?_of_release hid hn'
      rw [parent?_of_node? hn, ← hsame, hparent]
  · have hgone : s.release id = s := by
      rw [Scene.release]
      cases hk : s.node? id with
      | none => rfl
      | some k => exact absurd ⟨k, hk⟩ hid
    rw [hgone]
    exact h

/-- So it does when several are freed. -/
theorem Linked.foldl_release (h : s.Linked) (ids : List NodeId) :
    (ids.foldl Scene.release s).Linked :=
  ids.foldlRecOn Scene.release h fun _ ht id _ => ht.release id

/-- Removing a subtree keeps a scene linked, since the only other change is in who the children are.
-/
theorem Linked.remove [Scalar R] {freed : List NodeId} (h : s.Linked) (hs : s.Tree)
    (hrem : s.remove id = .ok (s', freed)) : s'.Linked := by
  obtain ⟨-, n, hn, -, rfl⟩ := eq_of_remove_eq_ok hrem
  have hlinked : (s.cut id n).Linked :=
    h.of_agree (agree_cut hs hn fun _ _ => rfl) fun c p hp => by
      rwa [parent?_eq_of_agree (agree_cut hs hn fun _ _ => rfl)] at hp
  refine (hlinked.foldl_release freed).of_agree (agree_touchParent (fun _ _ => rfl) _ n.parent)
    fun c p hp => ?_
  rwa [parent?_eq_of_agree (agree_touchParent (fun _ _ => rfl) _ n.parent)] at hp

end Freehand.Scene
