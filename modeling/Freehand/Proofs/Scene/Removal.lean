import Freehand.Proofs.Scene.Tree

/-!
# Removing a subtree

`Scene.subtree` lists the nodes at and below a node, children first (`Tree.mem_subtree_cut`), within
a budget of levels that the depth of a node pays for.

`Scene.release` takes one node out of the scene and leaves the place of every other node alone, with
all that is no link of it (`lasting_release`).  So removing a node is taking it from the children of
its parent and freeing all nodes below it, after which the rest is a tree again (`Tree.remove`).
-/

namespace Freehand

/-- What stays of a node when another one is freed. -/
def Node.lasting {R : Type} (n : Node R) : (Bool × Option NodeId × List NodeId) ×
    (Affine R × Bool × R) × (Flags × Affine R × Option (Rect R) × R) :=
  (n.place, (n.transform, n.hidden, n.style.opacity), (n.changed, n.world, n.box, n.opacity))

namespace Scene

variable {R β : Type} {s s' : Scene R} {id p c : NodeId} {n m : Node R}

/-! ## The nodes of a subtree -/

/-- The subtree of a node is made of nodes below it. -/
theorem above_of_mem_postorder (hchild : ∀ ⦃q k c⦄, s.node? q = some k → c ∈ k.children →
      s.parent? c = some q) {j : NodeId} :
    ∀ {levels : Nat} {id : NodeId}, j ∈ s.postorder levels id →
      s.Above id j ∧ ∃ k, s.node? j = some k
  | 0, _, h => by simp [postorder] at h
  | levels + 1, id, h => by
    rw [postorder] at h
    cases hn : s.node? id with
    | none => simp [hn] at h
    | some n =>
      simp only [hn, List.mem_append, List.mem_flatMap, List.mem_singleton] at h
      rcases h with ⟨c, hc, hj⟩ | heq
      · obtain ⟨hup, hlive⟩ := above_of_mem_postorder hchild hj
        exact ⟨(Above.of_parent? (hchild hn hc) (.refl s id)).trans hup, hlive⟩
      · exact ⟨heq ▸ .refl s id, n, heq ▸ hn⟩

/-- The budget of `postorder` is paid for by the depth in a tree `s` of which `s'` still has all
edges below `top`. -/
theorem Tree.mem_postorder {top j : NodeId} (h : s.Tree) (hj : s.node? j = some m)
    (hlive : ∃ k, s'.node? j = some k)
    (hlisted : ∀ ⦃q c⦄, s.Above top q → s.parent? c = some q →
      ∃ k, s'.node? q = some k ∧ c ∈ k.children) :
    ∀ {levels : Nat} {id : NodeId}, s.nodes.slots.size ≤ levels + s.depth id →
      s.Above top id → s.Above id j → j ∈ s'.postorder levels id := by
  intro levels
  induction levels with
  | zero =>
    intro id hlevels _ hid
    obtain ⟨k, hk⟩ := h.node?_of_above hj hid
    have := h.depth_lt hk
    omega
  | succ levels ih =>
    intro id hlevels htop hid
    rw [postorder]
    by_cases heq : j = id
    · obtain ⟨k, hk⟩ := hlive
      rw [← heq, hk]
      simp
    · obtain ⟨c, hc, hcj⟩ := hid.exists_child heq
      obtain ⟨k, hk, hin⟩ := hlisted htop hc
      have hdeeper := h.grounded.depth_of_parent? hc
      rw [hk]
      refine List.mem_append_left _ (List.mem_flatMap.2 ⟨c, hin, ?_⟩)
      exact ih (by omega) (htop.trans (.of_parent? hc (.refl s id))) hcj

/-! ## Freeing one node -/

/-- What stays of a node when another one is freed stays when it loses a target. -/
theorem lasting_withoutTarget (target : NodeId) (role : Role) (n : Node R) :
    (withoutTarget target role n).lasting = n.lasting := by
  cases role with
  | cloneSource =>
    simp only [withoutTarget]
    split
    next h =>
      cases hk : n.kind with
      | clone source => simp [Node.lasting, Node.place, hk, Kind.isGroup]
      | group layer => simp [hk, Kind.source?] at h
      | path elements => simp [hk, Kind.source?] at h
      | gradient stops => simp [hk, Kind.source?] at h
    next => rfl
  | fillServer => rfl
  | strokeServer => rfl

theorem parent_withoutTarget (target : NodeId) (role : Role) (n : Node R) :
    (withoutTarget target role n).parent = n.parent :=
  congrArg (fun lasting => lasting.1.2.1) (lasting_withoutTarget target role n)

theorem stale_withoutTarget (target : NodeId) (role : Role) (n : Node R) :
    (withoutTarget target role n).stale = n.stale := by
  cases role with
  | cloneSource =>
    simp only [withoutTarget]
    split <;> rfl
  | fillServer => rfl
  | strokeServer => rfl

theorem lasting_dropReference (target : NodeId) (s : Scene R) (k : Link) :
    Agree Node.lasting s (dropReference target s k) :=
  (Agree.modify fun n _ => lasting_withoutTarget target k.role n).trans
    (agree_touch (fun _ _ => rfl) _ _ _)

theorem lasting_unlink (s : Scene R) (owner target : NodeId) (role : Role) :
    Agree Node.lasting s (s.unlink owner target role) := by
  have htarget : Agree Node.lasting s (s.modify target fun n =>
      { n with subscribers := n.subscribers.filter fun l => l ≠ ⟨owner, role⟩ }) :=
    .modify fun _ _ => rfl
  exact htarget.trans (.modify fun _ _ => rfl)

theorem node?_free (s : Scene R) (id j : NodeId) :
    ({ s with nodes := s.nodes.remove id } : Scene R).node? j =
      if j = id then none else s.node? j :=
  s.nodes.get?_remove id j

theorem node?_release_self (s : Scene R) (id : NodeId) : (s.release id).node? id = none := by
  rw [release]
  split
  next hn => exact hn
  next => rw [node?_free, if_pos rfl]

/-- Freeing a node leaves of every other one what stays of it. -/
theorem lasting_release (s : Scene R) {id j : NodeId} (h : j ≠ id) :
    ((s.release id).node? j).map Node.lasting = (s.node? j).map Node.lasting := by
  rw [release]
  split
  next => rfl
  next n _ =>
    rw [node?_free, if_neg h]
    have hclear : Agree Node.lasting s
        (s.modify id fun n => { n with subscribers := [], references := [] }) :=
      .modify fun _ _ => rfl
    refine ((hclear.trans (.foldl (lasting_dropReference id) n.subscribers _)).trans
      (.foldl ?_ n.references _)) j
    exact fun s l => lasting_unlink s id l.node l.role

theorem place_release (s : Scene R) {id j : NodeId} (h : j ≠ id) :
    ((s.release id).node? j).map Node.place = (s.node? j).map Node.place := by
  have := congrArg (Option.map Prod.fst) (lasting_release s h)
  rwa [Option.map_map, Option.map_map] at this

theorem stays_free (s : Scene R) (id : NodeId) :
    Stays s { s with nodes := s.nodes.remove id } :=
  ⟨rfl, Arena.size_slots_remove _ _, fun hv => hv.remove id⟩

theorem stays_unlink (s : Scene R) (owner target : NodeId) (role : Role) :
    Stays s (s.unlink owner target role) :=
  (stays_modify s target _).trans (stays_modify _ owner _)

theorem stays_dropReference (target : NodeId) (s : Scene R) (k : Link) :
    Stays s (dropReference target s k) :=
  (stays_modify s k.node _).trans (stays_touch _ _ _)

/-- Slots and root stay when a node is freed. -/
theorem stays_release (s : Scene R) (id : NodeId) : Stays s (s.release id) := by
  rw [release]
  split
  · exact .refl s
  next n _ =>
    have hclear := stays_modify s id fun n => { n with subscribers := [], references := [] }
    refine ((hclear.trans (.foldl (stays_dropReference id) n.subscribers _)).trans
      (.foldl ?_ n.references _)).trans (stays_free _ id)
    exact fun s l => stays_unlink s id l.node l.role

/-! ## Freeing a list of nodes -/

theorem node?_release_of_gone (s : Scene R) (id : NodeId) {j : NodeId} (h : s.node? j = none) :
    (s.release id).node? j = none := by
  by_cases hj : j = id
  · rw [hj]
    exact node?_release_self s id
  · have := place_release s hj
    rwa [h, Option.map_none, Option.map_eq_none_iff] at this

theorem node?_foldl_release_of_gone {j : NodeId} (ids : List NodeId) (h : s.node? j = none) :
    (ids.foldl release s).node? j = none :=
  ids.foldlRecOn release h fun t ht id _ => node?_release_of_gone t id ht

theorem node?_foldl_release_of_mem {j : NodeId} :
    ∀ {ids : List NodeId} {s : Scene R}, j ∈ ids → (ids.foldl release s).node? j = none
  | id :: ids, s, h => by
    rcases List.mem_cons.1 h with heq | hin
    · rw [heq]
      exact node?_foldl_release_of_gone ids (node?_release_self s id)
    · exact node?_foldl_release_of_mem (s := s.release id) hin

/-- Freeing nodes leaves of all others what stays of them. -/
theorem lasting_foldl_release {j : NodeId} :
    ∀ {ids : List NodeId} {s : Scene R}, j ∉ ids →
      ((ids.foldl release s).node? j).map Node.lasting = (s.node? j).map Node.lasting
  | [], _, _ => rfl
  | id :: ids, s, h => by
    obtain ⟨hne, hnot⟩ := not_or.1 (mt List.mem_cons.2 h)
    exact (lasting_foldl_release (s := s.release id) hnot).trans (lasting_release s hne)

/-! ## A tree without a subtree -/

/-- The scene `s'` is what is left of `s` without the nodes at and below `id`, and without `id`
among the children of its parent. -/
structure Pruned (s s' : Scene R) (id : NodeId) : Prop where
  root : s'.root = s.root
  gone : ∀ j, s.Above id j → s'.node? j = none
  kept : ∀ j, ¬s.Above id j → (s'.node? j).map Node.place =
    (s.node? j).map fun n => (n.kind.isGroup, n.parent, n.children.filter fun c => c ≠ id)

namespace Pruned

variable {j : NodeId}

/-- What is not below the pruned node is left, and lists the pruned node no more. -/
theorem node? (h : s.Pruned s' id) (hn : s.node? j = some n) (hup : ¬s.Above id j) :
    ∃ n', s'.node? j = some n' ∧ n'.kind.isGroup = n.kind.isGroup ∧ n'.parent = n.parent ∧
      n'.children = n.children.filter fun c => c ≠ id := by
  have hmap := h.kept j hup
  rw [hn, Option.map_some] at hmap
  obtain ⟨n', hn', hplace⟩ := Option.map_eq_some_iff.1 hmap
  simp only [Node.place, Prod.mk.injEq] at hplace
  exact ⟨n', hn', hplace⟩

/-- Nothing else is left. -/
theorem of_node? {n' : Node R} (h : s.Pruned s' id) (hn' : s'.node? j = some n') :
    ¬s.Above id j ∧ ∃ n, s.node? j = some n ∧ n'.parent = n.parent ∧
      n'.children = n.children.filter fun c => c ≠ id := by
  have hup : ¬s.Above id j := fun hup => by
    rw [h.gone j hup] at hn'
    cases hn'
  have hmap := h.kept j hup
  rw [hn', Option.map_some] at hmap
  obtain ⟨n, hn, hplace⟩ := Option.map_eq_some_iff.1 hmap.symm
  simp only [Node.place, Prod.mk.injEq] at hplace
  exact ⟨hup, n, hn, hplace.2.1.symm, hplace.2.2.symm⟩

theorem parent? (h : s.Pruned s' id) {p : NodeId} (hp : s'.parent? j = some p) :
    s.parent? j = some p := by
  obtain ⟨n', hn', hparent⟩ := parent?_eq_some_iff.1 hp
  obtain ⟨-, n, hn, hsame, -⟩ := h.of_node? hn'
  exact parent?_eq_some_iff.2 ⟨n, hn, hsame.symm.trans hparent⟩

end Pruned

/-- What is left is a tree. -/
theorem Tree.prune (h : s.Tree) (hpruned : s.Pruned s' id) (hid : id ≠ s.root) : s'.Tree := by
  refine ⟨?_, fun j k' hk' hj => ?_, fun q k' c hk' hc => ?_,
    h.grounded.mono fun c p => hpruned.parent?⟩
  · have htop : ¬s.Above id s.root := by
      intro hup
      rcases hup.cases with heq | ⟨p, hp, -⟩
      · exact hid heq
      · rw [h.parent?_root] at hp
        cases hp
    obtain ⟨k, hk, hgroup, hnone⟩ := h.root
    obtain ⟨k', hk', hgroup', hparent, -⟩ := hpruned.node? hk htop
    exact ⟨k', by rw [hpruned.root, hk'], hgroup'.trans hgroup, hparent.trans hnone⟩
  · obtain ⟨hup, k, hk, hparent, -⟩ := hpruned.of_node? hk'
    obtain ⟨p, m, hp, hm, hgroup, hcount⟩ := h.parent hk (by rw [← hpruned.root]; exact hj)
    have hupp : ¬s.Above id p := fun hup' =>
      hup (.of_parent? ((parent?_of_node? hk).trans hp) hup')
    obtain ⟨m', hm', hgroup', -, hchildren⟩ := hpruned.node? hm hupp
    refine ⟨p, m', hparent.trans hp, hm', hgroup'.trans hgroup, ?_⟩
    have hne : j ≠ id := fun heq => hup (heq ▸ .refl s id)
    rw [hchildren, List.count_filter (by simpa using hne)]
    exact hcount
  · obtain ⟨-, k, hk, -, hchildren⟩ := hpruned.of_node? hk'
    rw [hchildren, List.mem_filter] at hc
    obtain ⟨m, hm, hp⟩ := h.child hk hc.1
    have hup : ¬s.Above id c := fun hup => (hpruned.of_node? hk').1 <|
      hup.parent ((parent?_of_node? hm).trans hp) fun heq => by simp [heq] at hc
    obtain ⟨m', hm', -, hparent, -⟩ := hpruned.node? hm hup
    exact ⟨m', hm', hparent.trans hp⟩

/-! ## Removing a node -/

theorem stays_touchParent (s : Scene R) (parent : Option NodeId) :
    Stays s (s.touchParent parent) := by
  simp only [touchParent]
  cases parent with
  | none => exact .refl s
  | some p => exact stays_touch s p _

theorem agree_touchParent {part : Node R → β} (h : Unmarked part) (s : Scene R)
    (parent : Option NodeId) : Agree part s (s.touchParent parent) := by
  simp only [touchParent]
  cases parent with
  | none => exact .refl part s
  | some p => exact agree_touch h s p _

section

variable [Scalar R]

/-- The scene of which `remove` frees a subtree: its topmost node `n` is no child anymore. -/
def cut (s : Scene R) (id : NodeId) (n : Node R) : Scene R :=
  (s.detach n.parent id).addDamage n.box

theorem remove_eq_ok (hid : id ≠ s.root) (hn : s.node? id = some n) :
    s.remove id = .ok ((((s.cut id n).subtree id).foldl release (s.cut id n)).touchParent n.parent,
      (s.cut id n).subtree id) := by
  rw [remove, if_neg hid, hn]
  rfl

/-- A removal that succeeds takes the node from its parent, frees its subtree and touches the
parent. -/
theorem eq_of_remove_eq_ok {freed : List NodeId} (h : s.remove id = .ok (s', freed)) :
    id ≠ s.root ∧ ∃ n, s.node? id = some n ∧ freed = (s.cut id n).subtree id ∧
      s' = (freed.foldl release (s.cut id n)).touchParent n.parent := by
  by_cases hid : id = s.root
  · rw [remove, if_pos hid] at h
    cases h
  · cases hn : s.node? id with
    | none =>
      rw [remove, if_neg hid, hn] at h
      cases h
    | some n =>
      rw [remove_eq_ok hid hn] at h
      cases h
      exact ⟨hid, n, rfl, rfl, rfl⟩

theorem stays_cut (s : Scene R) (id : NodeId) (n : Node R) : Stays s (s.cut id n) := by
  simp only [cut, detach]
  cases n.parent with
  | none => exact ⟨rfl, rfl, fun hv => hv⟩
  | some p => exact (stays_modify s p _).trans ⟨rfl, rfl, fun hv => hv⟩

theorem stays_remove {freed : List NodeId} (h : s.remove id = .ok (s', freed)) : Stays s s' := by
  obtain ⟨-, n, -, rfl, rfl⟩ := eq_of_remove_eq_ok h
  exact ((stays_cut s id n).trans (.foldl stays_release _ _)).trans (stays_touchParent _ _)

/-- Cutting a node off changes the children of its parent only. -/
theorem node?_cut (h : s.Tree) (hn : s.node? id = some n) (j : NodeId) :
    (s.cut id n).node? j =
      (s.node? j).map fun k => { k with children := k.children.filter fun c => c ≠ id } := by
  have hsame : ∀ k, s.node? j = some k → n.parent ≠ some j →
      { k with children := k.children.filter fun c => c ≠ id } = k := by
    intro k hk hne
    have hnot : id ∉ k.children := fun hin =>
      hne ((parent?_of_node? hn).symm.trans ((h.mem_children_iff hk).1 hin))
    rw [List.filter_eq_self.2]
    intro c hc
    simpa using fun heq : c = id => hnot (heq ▸ hc)
  have hself : n.parent ≠ some j → s.node? j =
      (s.node? j).map fun k => { k with children := k.children.filter fun c => c ≠ id } := by
    intro hne
    cases hk : s.node? j with
    | none => rfl
    | some k => rw [Option.map_some, hsame k hk hne]
  simp only [cut, detach]
  cases hp : n.parent with
  | none =>
    refine hself ?_
    simp [hp]
  | some p =>
    rw [node?_addDamage, node?_modify]
    split
    next => rfl
    next hne =>
      refine hself ?_
      simpa [hp] using Ne.symm hne

theorem agree_cut {part : Node R → β} (h : s.Tree) (hn : s.node? id = some n)
    (hpart : ∀ (n : Node R) (children : List NodeId), part { n with children } = part n) :
    Agree part s (s.cut id n) := by
  intro j
  rw [node?_cut h hn, Option.map_map]
  exact congrArg (fun f => (s.node? j).map f) (funext fun n => hpart n _)

/-- The nodes at and below a node are those that removing it frees. -/
theorem Tree.mem_subtree_cut (h : s.Tree) (hn : s.node? id = some n) {j : NodeId} :
    j ∈ (s.cut id n).subtree id ↔ s.Above id j ∧ ∃ k, s.node? j = some k := by
  have hparent : ∀ c, (s.cut id n).parent? c = s.parent? c :=
    parent?_eq_of_agree (agree_cut h hn fun _ _ => rfl)
  constructor
  · intro hj
    obtain ⟨hup, k, hk⟩ := above_of_mem_postorder (fun q k c hk hc => by
      rw [node?_cut h hn] at hk
      obtain ⟨k₀, hk₀, rfl⟩ := Option.map_eq_some_iff.1 hk
      rw [hparent]
      exact (h.mem_children_iff hk₀).1 (List.mem_of_mem_filter hc)) hj
    rw [node?_cut h hn] at hk
    obtain ⟨k₀, hk₀, -⟩ := Option.map_eq_some_iff.1 hk
    refine ⟨hup.mono fun c p hp => ?_, k₀, hk₀⟩
    rwa [← hparent]
  · rintro ⟨hup, k, hk⟩
    rw [subtree, (stays_cut s id n).slots]
    refine h.mem_postorder hk ?_ ?_ (Nat.le_add_right _ _) (.refl s id) hup
    · rw [node?_cut h hn, hk]
      exact ⟨_, rfl⟩
    · intro q c hq hc
      obtain ⟨l, hl, -⟩ := h.node?_of_parent? hc
      rw [node?_cut h hn, hl]
      refine ⟨_, rfl, ?_⟩
      -- the node that was cut off is not below itself
      have hne : c ≠ id := fun heq => h.grounded.not_above_parent hc (heq ▸ hq)
      simpa [hne] using (h.mem_children_iff hl).2 hc

/-- What was below the removed node is gone. -/
theorem node?_remove_of_above {freed : List NodeId} (h : s.Tree)
    (hrem : s.remove id = .ok (s', freed)) {j : NodeId} (hup : s.Above id j) :
    s'.node? j = none := by
  obtain ⟨-, n, hn, rfl, rfl⟩ := eq_of_remove_eq_ok hrem
  have hgone : ∀ t : Scene R, t.node? j = none → (t.touchParent n.parent).node? j = none := by
    intro t ht
    have hagree : Agree Node.place t (t.touchParent n.parent) :=
      agree_touchParent (fun _ _ => rfl) t n.parent
    have hj := hagree j
    rwa [ht, Option.map_none, Option.map_eq_none_iff] at hj
  refine hgone _ ?_
  cases hj : s.node? j with
  | some k => exact node?_foldl_release_of_mem ((h.mem_subtree_cut hn).2 ⟨hup, k, hj⟩)
  | none =>
    refine node?_foldl_release_of_gone _ ?_
    rw [node?_cut h hn, hj, Option.map_none]

/-- What is not below the removed node loses it as a child at most. -/
theorem lasting_remove_of_not_above {freed : List NodeId} (h : s.Tree)
    (hrem : s.remove id = .ok (s', freed)) {j : NodeId} (hup : ¬s.Above id j) :
    (s'.node? j).map Node.lasting = (s.node? j).map fun n =>
      { n with children := n.children.filter fun c => c ≠ id : Node R }.lasting := by
  obtain ⟨-, n, hn, rfl, rfl⟩ := eq_of_remove_eq_ok hrem
  have hnot : j ∉ (s.cut id n).subtree id := fun hin => hup ((h.mem_subtree_cut hn).1 hin).1
  have hmark : ∀ t : Scene R, Agree Node.lasting t (t.touchParent n.parent) :=
    fun t => agree_touchParent (fun _ _ => rfl) t n.parent
  rw [hmark, lasting_foldl_release hnot, node?_cut h hn, Option.map_map]
  rfl

theorem node?_remove_of_not_above {freed : List NodeId} (h : s.Tree)
    (hrem : s.remove id = .ok (s', freed)) {j : NodeId} (hup : ¬s.Above id j)
    (hn : s.node? j = some n) :
    ∃ n', s'.node? j = some n' ∧
      n'.lasting = { n with children := n.children.filter fun c => c ≠ id : Node R }.lasting := by
  have hlasting := lasting_remove_of_not_above h hrem hup
  rw [hn, Option.map_some] at hlasting
  exact Option.map_eq_some_iff.1 hlasting

/-- What is left was there before, and not below the node. -/
theorem node?_of_remove {freed : List NodeId} (h : s.Tree)
    (hrem : s.remove id = .ok (s', freed)) {j : NodeId} {n' : Node R}
    (hn' : s'.node? j = some n') : ¬s.Above id j ∧ ∃ n, s.node? j = some n := by
  have hup : ¬s.Above id j := fun hup => by
    rw [node?_remove_of_above h hrem hup] at hn'
    cases hn'
  have hlasting := lasting_remove_of_not_above h hrem hup
  rw [hn', Option.map_some] at hlasting
  obtain ⟨n, hn, -⟩ := Option.map_eq_some_iff.1 hlasting.symm
  exact ⟨hup, n, hn⟩

/-- A removal keeps the tree. -/
theorem Tree.remove {freed : List NodeId} (h : s.Tree) (hrem : s.remove id = .ok (s', freed)) :
    s'.Tree := by
  refine h.prune ⟨(stays_remove hrem).root, fun _ => node?_remove_of_above h hrem,
    fun j hj => ?_⟩ (eq_of_remove_eq_ok hrem).1
  have := congrArg (Option.map Prod.fst) (lasting_remove_of_not_above h hrem hj)
  rwa [Option.map_map, Option.map_map] at this

end

end Scene

end Freehand
