import Freehand.Proofs.Scene.Run
import Freehand.Scalar.Binary64
import Mathlib.Data.Set.Card

/-!
# Reachable scenes

What holds of every scene that commands lead to, whatever the commands are and whatever observers do
in between, as long as words of 32 bits name the slots.
-/

namespace Freehand.Scene

variable {R : Type} {s : Scene R} {id j o p : NodeId} {n m : Node R} {flags : Flags}

/-! ## The nodes of a tree -/

/-- The node `c` is in the list of children of `p`. -/
def Lists (s : Scene R) (p c : NodeId) : Prop :=
  ∃ n, s.node? p = some n ∧ c ∈ n.children

/-- The nodes of a tree are those that the root reaches through lists of children. -/
theorem Tree.lists_iff (h : s.Tree) :
    Relation.ReflTransGen s.Lists s.root id ↔ ∃ n, s.node? id = some n := by
  constructor
  · intro hreach
    induction hreach with
    | refl =>
      obtain ⟨n, hn, -⟩ := h.root
      exact ⟨n, hn⟩
    | tail _ hlists _ =>
      obtain ⟨m, hm, hc⟩ := hlists
      obtain ⟨n, hn, -⟩ := h.child hm hc
      exact ⟨n, hn⟩
  · induction id using h.grounded.induction with
    | _ id ih =>
      rintro ⟨n, hn⟩
      by_cases hid : id = s.root
      · rw [hid]
      · obtain ⟨p, m, hp, hm, -⟩ := h.parent hn hid
        have hp' : s.parent? id = some p := (parent?_of_node? hn).trans hp
        exact (ih p hp' ⟨m, hm⟩).tail ⟨m, hm, (h.mem_children_iff hm).2 hp'⟩

/-- The size counts the nodes that the children of the root lead to, as these are all nodes. -/
theorem Tree.size_eq_ncard (h : s.Tree) (hvalid : s.nodes.Valid) (hfits : s.nodes.Fits) :
    s.size = {id | Relation.ReflTransGen s.Lists s.root id}.ncard := by
  have hset : {id | Relation.ReflTransGen s.Lists s.root id} =
      ((s.nodes.toList.map Prod.fst).toFinset : Set NodeId) := by
    ext id
    rw [Set.mem_ofPred_eq, h.lists_iff, List.coe_toFinset, Set.mem_ofPred_eq, List.mem_map]
    constructor
    · rintro ⟨n, hn⟩
      exact ⟨(id, n), (Arena.mem_toList hfits).2 hn, rfl⟩
    · rintro ⟨⟨id, n⟩, hn, rfl⟩
      exact ⟨n, (Arena.mem_toList hfits).1 hn⟩
  rw [hset, Set.ncard_coe_finset, List.toFinset_card_of_nodup (Arena.nodup_toList hfits),
    List.length_map, Arena.length_toList hvalid]
  rfl

/-- The way up from a node ends at the root. -/
theorem Tree.ancestors_chain (h : s.Tree) :
    ∀ {id : NodeId} {n : Node R}, s.node? id = some n →
      (id :: s.ancestors id).IsChain (fun c p => s.parent? c = some p) ∧
      (id :: s.ancestors id).getLast? = some s.root := by
  intro id
  induction id using h.grounded.induction with
  | _ id ih =>
    intro n hn
    by_cases hid : id = s.root
    · rw [hid, ancestors_of_root h.parent?_root]
      exact ⟨.singleton _, rfl⟩
    · obtain ⟨p, m, hp, hm, -⟩ := h.parent hn hid
      have hp' : s.parent? id = some p := (parent?_of_node? hn).trans hp
      obtain ⟨hchain, hlast⟩ := ih p hp' hm
      rw [h.grounded.ancestors_of_parent? hp']
      exact ⟨List.isChain_cons_cons.2 ⟨hp', hchain⟩, by rw [List.getLast?_cons_cons, hlast]⟩

/-- A group with a path in it, a clone of the path, and a gradient that the path is filled with.  A
layer was added and removed again. -/
def sketch : Scene Float :=
  (Stage.run (Conduct.silent.listener 0)
    [.addChild ⟨0, 0⟩ (.group false), .addChild ⟨1, 0⟩ (.path []),
      .addChild ⟨0, 0⟩ (.clone (some ⟨2, 0⟩)), .addChild ⟨0, 0⟩ (.gradient []),
      .edit (.setFillServer ⟨2, 0⟩ ⟨4, 0⟩), .addChild ⟨0, 0⟩ (.group true), .remove ⟨5, 0⟩]
    (Stage.ofScene (new standardPasses) ())).scene

theorem reachable_sketch : sketch.Reachable :=
  ⟨Unit, .silent, 0, standardPasses, (), _, rfl⟩

variable [Scalar R]

namespace Reachable

/-- The tree is well formed: parents and children agree, the way up from every node is finite, free
of repetitions and ends at the root, and the nodes are those that the root reaches, so that no node
is lost. -/
theorem tree_wellFormed (h : s.Reachable) (hfits : s.nodes.Fits) :
    (∃ n, s.node? s.root = some n ∧ n.kind.isGroup = true ∧ n.parent = none) ∧
    (∀ id n, s.node? id = some n → id ≠ s.root → ∃ p m, n.parent = some p ∧
      s.node? p = some m ∧ m.kind.isGroup = true ∧ m.children.count id = 1) ∧
    (∀ id n c, s.node? id = some n → c ∈ n.children →
      ∃ m, s.node? c = some m ∧ m.parent = some id) ∧
    (∀ id n, s.node? id = some n → (id :: s.ancestors id).Nodup ∧
      (id :: s.ancestors id).IsChain (fun c p => s.parent? c = some p) ∧
      (id :: s.ancestors id).getLast? = some s.root) ∧
    (∀ id, (∃ n, s.node? id = some n) ↔ Relation.ReflTransGen s.Lists s.root id) ∧
    s.size = {id | Relation.ReflTransGen s.Lists s.root id}.ncard := by
  have hsound := h.sound hfits
  have htree := hsound.tree
  refine ⟨htree.root, fun id n hn => htree.parent hn, fun id n c hn => htree.child hn, ?_, ?_, ?_⟩
  · intro id n hn
    exact ⟨htree.grounded.nodup_self_ancestors id, htree.ancestors_chain hn⟩
  · exact fun id => htree.lists_iff.symm
  · exact htree.size_eq_ncard hsound.valid hfits

theorem tree_wellFormed_sketch :
    {id | Relation.ReflTransGen sketch.Lists sketch.root id}.ncard = 5 := by
  obtain ⟨-, -, -, -, -, hsize⟩ := reachable_sketch.tree_wellFormed (by decide)
  rw [← hsize]
  decide

/-- References are the same at both ends and in the values that nodes hold, and lead to nodes of the
right kind that are not above their owner. -/
theorem references_symmetric (h : s.Reachable) (hfits : s.nodes.Fits) (hn : s.node? o = some n) :
    (∀ r, (n.references.map Link.role).count r ≤ 1) ∧
    (∀ t r, ⟨t, r⟩ ∈ n.references ↔
      ∃ m, s.node? t = some m ∧ m.subscribers.count ⟨o, r⟩ = 1) ∧
    (∀ t m r, s.node? t = some m → m.subscribers.count ⟨o, r⟩ ≤ 1) ∧
    (∀ k ∈ n.subscribers, ∃ m, s.node? k.node = some m ∧ ⟨o, k.role⟩ ∈ m.references) ∧
    (∀ t, n.kind = .clone (some t) ↔ ⟨t, .cloneSource⟩ ∈ n.references) ∧
    (∀ t, n.style.fill = .server t ↔ ⟨t, .fillServer⟩ ∈ n.references) ∧
    (∀ t, n.style.stroke = .server t ↔ ⟨t, .strokeServer⟩ ∈ n.references) ∧
    (∀ t r, ⟨t, r⟩ ∈ n.references →
      (∃ m, s.node? t = some m ∧ (m.kind.isGradient = true ↔ r ≠ .cloneSource)) ∧
      t ≠ o ∧ ¬s.Above t o) := by
  have hlinked := (h.sound hfits).linked
  have hheld : ∀ t r, n.held r = some t ↔ ⟨t, r⟩ ∈ n.references := by
    intro t r
    rw [← held?_of_node? hn]
    exact hlinked.holds_iff hn t r
  have hserver : ∀ (paint : Paint) t, paint.server? = some t ↔ paint = .server t := by
    intro paint t
    cases paint <;> simp [Paint.server?]
  refine ⟨fun r => ?_, fun t r => ⟨fun href => ?_, ?_⟩, fun t m r hm => ?_, fun k hk => ?_,
    fun t => ?_, fun t => ?_, fun t => ?_, fun t r href => ?_⟩
  · exact List.nodup_iff_count.1 (hlinked.nodup_roles hn) r
  · obtain ⟨⟨⟨m, hm, -⟩, -⟩, hsub⟩ := hlinked.subscribed hn href
    exact ⟨m, hm, List.count_eq_one_of_mem (hlinked.nodup_subscribers hm) (hsub m hm)⟩
  · rintro ⟨m, hm, hcount⟩
    obtain ⟨n', hn', href⟩ := hlinked.referenced hm (List.count_pos_iff.1 (by rw [hcount]; decide))
    rw [hn] at hn'
    cases hn'
    exact href
  · exact List.nodup_iff_count.1 (hlinked.nodup_subscribers hm) _
  · exact hlinked.referenced hn hk
  · rw [← hheld]
    cases hk : n.kind <;> simp [Node.held, hk, Kind.source?]
  · rw [← hheld, Node.held, hserver]
  · rw [← hheld, Node.held, hserver]
  · obtain ⟨⟨htarget, hapart⟩, -⟩ := hlinked.subscribed hn href
    exact ⟨htarget, fun heq => hapart (heq ▸ .refl s t), hapart⟩

theorem references_symmetric_sketch :
    ∃ m, sketch.node? ⟨2, 0⟩ = some m ∧ m.subscribers.count ⟨⟨3, 0⟩, .cloneSource⟩ = 1 := by
  have hrefs : (sketch.node? ⟨3, 0⟩).map Node.references = some [⟨⟨2, 0⟩, .cloneSource⟩] := by
    decide
  obtain ⟨n, hn, href⟩ := Option.map_eq_some_iff.1 hrefs
  obtain ⟨-, hends, -⟩ := reachable_sketch.references_symmetric (by decide) hn
  exact (hends ⟨2, 0⟩ .cloneSource).1 (by rw [href]; exact List.mem_singleton_self _)

/-- Marks are on the parent too and there are no news between updates; so asking for an update,
which stops at the first ancestor that carries the marks, marks the node and all its ancestors. -/
theorem requestUpdate_exact (h : s.Reachable) (hfits : s.nodes.Fits) :
    (∀ id n, s.node? id = some n → id ≠ s.root →
      ∃ p m, n.parent = some p ∧ s.node? p = some m ∧ n.stale ⊆ m.stale) ∧
    (∀ id n, s.node? id = some n → n.changed = ∅) ∧
    ∀ id flags, s.contains id = true → ∃ s', s.requestUpdate id flags = .ok s' ∧
      ∀ j, (s.Above j id → s'.node? j = (s.node? j).map (Node.marked flags)) ∧
        (¬s.Above j id → s'.node? j = s.node? j) := by
  have hsound := h.sound hfits
  refine ⟨fun id n hn hid => ?_, fun id n hn => ?_, fun id flags hid => ?_⟩
  · obtain ⟨p, m, hp, hm, -⟩ := hsound.tree.parent hn hid
    exact ⟨p, m, hp, hm, hsound.rising hn hp hm⟩
  · by_contra hchanged
    exact h.not_news hfits id ⟨n, hn, hchanged⟩
  · refine ⟨s.touch id flags, by rw [requestUpdate, if_pos hid], fun j => ⟨fun hup => ?_, ?_⟩⟩
    · exact hsound.rising.node?_touch_of_above hsound.tree.grounded hup flags
    · exact fun hup => hsound.rising.node?_touch_of_not_above hsound.tree.grounded hup flags

theorem requestUpdate_exact_sketch :
    ∃ s', sketch.requestUpdate ⟨2, 0⟩ .paint = .ok s' ∧
      s'.node? ⟨0, 0⟩ = (sketch.node? ⟨0, 0⟩).map (Node.marked .paint) := by
  obtain ⟨-, -, hexact⟩ := reachable_sketch.requestUpdate_exact (by decide)
  obtain ⟨s', hs', hmarks⟩ := hexact ⟨2, 0⟩ .paint (by decide)
  have hgroup : sketch.parent? ⟨2, 0⟩ = some ⟨1, 0⟩ := by decide
  have hroot : sketch.parent? ⟨1, 0⟩ = some ⟨0, 0⟩ := by decide
  exact ⟨s', hs', (hmarks ⟨0, 0⟩).1 (.of_parent? hgroup (.of_parent? hroot (.refl _ _)))⟩

end Reachable

end Freehand.Scene
