import Freehand.Proofs.Scene.Ancestry
import Freehand.Scene.Edit

/-!
# The tree of a scene

Parents and children are stored on both sides of each edge.  `Scene.Tree` says that the sides agree:
the root is a group without a parent, every other node is once in the list of children of its
parent, a group, and every child names the node that lists it as its parent.

* The invariant depends only on the *place* of each node: its parent, its children and whether it is
  a group (`Tree.of_agree`).
* A new node at the end of a group keeps it (`Tree.plant`).
-/

namespace Freehand

/-- Where a node stands in the tree. -/
def Node.place {R : Type} (n : Node R) : Bool × Option NodeId × List NodeId :=
  (n.kind.isGroup, n.parent, n.children)

namespace Scene

variable {R : Type} {s s' : Scene R} {id p c : NodeId} {n m : Node R}

/-- The two sides of every edge of the tree agree. -/
structure Tree (s : Scene R) : Prop where
  /-- The root is a group without a parent. -/
  root : ∃ n, s.node? s.root = some n ∧ n.kind.isGroup = true ∧ n.parent = none
  /-- Every other node is once among the children of its parent, which is a group. -/
  parent : ∀ ⦃id n⦄, s.node? id = some n → id ≠ s.root →
    ∃ p m, n.parent = some p ∧ s.node? p = some m ∧ m.kind.isGroup = true ∧
      m.children.count id = 1
  /-- A child is a node and names the node that lists it as its parent. -/
  child : ∀ ⦃id n c⦄, s.node? id = some n → c ∈ n.children →
    ∃ m, s.node? c = some m ∧ m.parent = some id
  /-- Following parents ends. -/
  grounded : s.Grounded

namespace Tree

/-- Whether the nodes form a tree depends on the root, and on the parents, the children and the
kinds of the nodes only. -/
theorem of_agree (h : s.Tree) (hroot : s'.root = s.root) (hagree : Agree Node.place s s') :
    s'.Tree := by
  have hparent : Agree Node.parent s s' := hagree.map fun place => place.2.1
  have hnode : ∀ {id n'}, s'.node? id = some n' → ∃ n, s.node? id = some n ∧
      n'.kind.isGroup = n.kind.isGroup ∧ n'.parent = n.parent ∧ n'.children = n.children := by
    intro id n' hn'
    obtain ⟨n, hn, hplace⟩ := hagree.symm.node? hn'
    simp only [Node.place, Prod.mk.injEq] at hplace
    exact ⟨n, hn, hplace.1.symm, hplace.2.1.symm, hplace.2.2.symm⟩
  have hnode' : ∀ {id n}, s.node? id = some n → ∃ n', s'.node? id = some n' ∧
      n'.kind.isGroup = n.kind.isGroup ∧ n'.parent = n.parent ∧ n'.children = n.children := by
    intro id n hn
    obtain ⟨n', hn', hplace⟩ := hagree.node? hn
    simp only [Node.place, Prod.mk.injEq] at hplace
    exact ⟨n', hn', hplace.1, hplace.2.1, hplace.2.2⟩
  refine ⟨?_, ?_, ?_, ?_⟩
  · obtain ⟨n, hn, hgroup, hnone⟩ := h.root
    obtain ⟨n', hn', hgroup', hparent', -⟩ := hnode' hn
    exact ⟨n', by rw [hroot]; exact hn', hgroup'.trans hgroup, hparent'.trans hnone⟩
  · intro id n' hn' hid
    obtain ⟨n, hn, -, hparent', -⟩ := hnode hn'
    obtain ⟨p, m, hp, hm, hgroup, hcount⟩ := h.parent hn (by rw [← hroot]; exact hid)
    obtain ⟨m', hm', hgroup', -, hchildren'⟩ := hnode' hm
    exact ⟨p, m', hparent'.trans hp, hm', hgroup'.trans hgroup, by rw [hchildren', hcount]⟩
  · intro id n' c hn' hc
    obtain ⟨n, hn, -, -, hchildren'⟩ := hnode hn'
    obtain ⟨m, hm, hp⟩ := h.child hn (by rw [← hchildren']; exact hc)
    obtain ⟨m', hm', -, hparent', -⟩ := hnode' hm
    exact ⟨m', hm', hparent'.trans hp⟩
  · exact h.grounded.mono fun c p hp => by rwa [parent?_eq_of_agree hparent] at hp

/-! ## What the invariant gives -/

theorem parent?_root (h : s.Tree) : s.parent? s.root = none := by
  obtain ⟨n, hn, -, hnone⟩ := h.root
  rw [parent?_of_node? hn, hnone]

theorem ne_root_of_parent? (h : s.Tree) (hp : s.parent? id = some p) : id ≠ s.root := by
  intro heq
  rw [heq, h.parent?_root] at hp
  cases hp

/-- The parent of a node is a group that lists the node once. -/
theorem node?_of_parent? (h : s.Tree) (hp : s.parent? id = some p) :
    ∃ m, s.node? p = some m ∧ m.kind.isGroup = true ∧ m.children.count id = 1 := by
  obtain ⟨n, hn, hparent⟩ := parent?_eq_some_iff.1 hp
  obtain ⟨q, m, hq, hm, hgroup, hcount⟩ := h.parent hn (h.ne_root_of_parent? hp)
  rw [hparent] at hq
  cases hq
  exact ⟨m, hm, hgroup, hcount⟩

/-- The children of a node are the nodes with it as parent. -/
theorem mem_children_iff (h : s.Tree) (hm : s.node? p = some m) :
    c ∈ m.children ↔ s.parent? c = some p := by
  constructor
  · intro hc
    obtain ⟨n, hn, hparent⟩ := h.child hm hc
    rw [parent?_of_node? hn, hparent]
  · intro hp
    obtain ⟨m', hm', -, hcount⟩ := h.node?_of_parent? hp
    rw [hm] at hm'
    cases hm'
    exact List.count_pos_iff.1 (by omega)

theorem nodup_children (h : s.Tree) (hm : s.node? p = some m) : m.children.Nodup := by
  rw [List.nodup_iff_count]
  intro c
  by_cases hc : c ∈ m.children
  · obtain ⟨m', hm', -, hcount⟩ := h.node?_of_parent? ((h.mem_children_iff hm).1 hc)
    rw [hm] at hm'
    cases hm'
    omega
  · rw [List.count_eq_zero.2 hc]
    omega

/-- There is a node wherever a way up leads. -/
theorem node?_of_above (h : s.Tree) {a : NodeId} :
    ∀ {id : NodeId} {n : Node R}, s.node? id = some n → s.Above a id → ∃ m, s.node? a = some m := by
  intro id
  induction id using h.grounded.induction with
  | _ id ih =>
    intro n hn hup
    rcases hup.cases with heq | ⟨p, hp, hup'⟩
    · exact ⟨n, by rw [heq]; exact hn⟩
    · obtain ⟨m, hm, -⟩ := h.node?_of_parent? hp
      exact ih p hp hm hup'

/-- The way up from a node is shorter than the arena, since no node is on it twice. -/
theorem depth_lt (h : s.Tree) (hn : s.node? id = some n) :
    s.depth id < s.nodes.slots.size := by
  have hlive : ∀ a ∈ id :: s.ancestors id, ∃ m, s.node? a = some m := fun a ha =>
    h.node?_of_above hn (h.grounded.mem_self_ancestors_iff.1 ha)
  exact length_le_slots (h.grounded.nodup_self_ancestors id) hlive

/-- The subtrees of two children of a node are disjoint. -/
theorem not_above_sibling (h : s.Tree) {d j : NodeId} (hc : s.parent? c = some id)
    (hd : s.parent? d = some id) (hne : c ≠ d) (hj : s.Above c j) : ¬s.Above d j := by
  intro hj'
  rcases hj.total hj' with hup | hup
  · exact h.grounded.not_above_parent hc (hup.parent hd hne)
  · exact h.grounded.not_above_parent hd (hup.parent hc hne.symm)

end Tree

/-! ## A new node -/

/-- The identifier that the next new node gets. -/
def nextId (s : Scene R) [Scalar R] (parent : NodeId) (kind : Kind R) : NodeId :=
  (s.nodes.insert (.ofKind kind (some parent))).1

/-- The scene with a new node as the last child of `parent`, without marks for it. -/
def plant (s : Scene R) [Scalar R] (parent : NodeId) (kind : Kind R) : Scene R :=
  ({ s with nodes := (s.nodes.insert (.ofKind kind (some parent))).2 } : Scene R).modify parent
    fun n => { n with children := n.children ++ [s.nextId parent kind] }

section

variable [Scalar R] {kind : Kind R}

theorem size_slots_plant (s : Scene R) (parent : NodeId) (kind : Kind R) :
    (s.plant parent kind).nodes.slots.size =
      (s.nodes.insert (.ofKind kind (some parent))).2.slots.size :=
  Arena.size_slots_modify _ _ _

/-- No node has the identifier that is given out next. -/
theorem node?_nextId (hvalid : s.nodes.Valid) (hfits : (s.plant p kind).nodes.Fits) :
    s.node? (s.nextId p kind) = none := by
  rw [Arena.Fits, size_slots_plant] at hfits
  exact Arena.get?_insert_fst hvalid _ hfits

theorem nextId_ne (hvalid : s.nodes.Valid) (hfits : (s.plant p kind).nodes.Fits)
    (hn : s.node? id = some n) : s.nextId p kind ≠ id := by
  intro heq
  rw [← heq, node?_nextId hvalid hfits] at hn
  cases hn

/-- It is none of the identifiers in use. -/
theorem node?_plant_nextId (hvalid : s.nodes.Valid) (hfits : (s.plant p kind).nodes.Fits)
    (hp : s.node? p = some m) :
    (s.plant p kind).node? (s.nextId p kind) = some (.ofKind kind (some p)) := by
  rw [plant, node?_modify_of_ne _ _ (nextId_ne hvalid hfits hp)]
  rw [Arena.Fits, size_slots_plant] at hfits
  exact (Arena.get?_insert hvalid _ hfits _).trans (if_pos rfl)

/-- A new node changes nothing but the list of its parent's children. -/
theorem node?_plant (hvalid : s.nodes.Valid) (hfits : (s.plant p kind).nodes.Fits)
    (hid : id ≠ s.nextId p kind) :
    (s.plant p kind).node? id = if id = p then
      (s.node? id).map fun n => { n with children := n.children ++ [s.nextId p kind] }
    else s.node? id := by
  rw [Arena.Fits, size_slots_plant] at hfits
  have hold : ({ s with nodes := (s.nodes.insert (.ofKind kind (some p))).2 } : Scene R).node? id =
      s.node? id :=
    (Arena.get?_insert hvalid _ hfits id).trans (if_neg hid)
  rw [plant, node?_modify, hold]

/-- An old node keeps everything but, if the new one is put below it, its children. -/
theorem node?_plant_of_node? (hvalid : s.nodes.Valid) (hfits : (s.plant p kind).nodes.Fits)
    (hn : s.node? id = some n) :
    (s.plant p kind).node? id = some { n with
      children := if id = p then n.children ++ [s.nextId p kind] else n.children } := by
  rw [node?_plant hvalid hfits (nextId_ne hvalid hfits hn).symm, hn]
  split <;> rfl

/-- A node is the new one, or it is an old one. -/
theorem node?_plant_cases (hvalid : s.nodes.Valid) (hfits : (s.plant p kind).nodes.Fits)
    (hp : s.node? p = some m) {n' : Node R} (hn' : (s.plant p kind).node? id = some n') :
    (id = s.nextId p kind ∧ n' = .ofKind kind (some p)) ∨
    ∃ n, s.node? id = some n ∧ n' = { n with
      children := if id = p then n.children ++ [s.nextId p kind] else n.children } := by
  by_cases hid : id = s.nextId p kind
  · rw [hid, node?_plant_nextId hvalid hfits hp] at hn'
    exact .inl ⟨hid, (Option.some.inj hn').symm⟩
  · cases hn : s.node? id with
    | none =>
      rw [node?_plant hvalid hfits hid, hn] at hn'
      simp at hn'
    | some n =>
      rw [node?_plant_of_node? hvalid hfits hn] at hn'
      exact .inr ⟨n, rfl, (Option.some.inj hn').symm⟩

/-- It is in its group, and the others stay where they are. -/
theorem parent?_plant (hvalid : s.nodes.Valid) (hfits : (s.plant p kind).nodes.Fits)
    (hp : s.node? p = some m) :
    (s.plant p kind).parent? id = if id = s.nextId p kind then some p else s.parent? id := by
  split
  next hid => rw [hid, parent?_of_node? (node?_plant_nextId hvalid hfits hp), Node.ofKind]
  next hid =>
    rw [parent?, parent?, node?_plant hvalid hfits hid]
    split
    · cases s.node? id <;> rfl
    · rfl

/-- No node names the new one as its parent, so following parents still ends. -/
theorem Grounded.plant (h : s.Tree) (hvalid : s.nodes.Valid)
    (hfits : (s.plant p kind).nodes.Fits) (hp : s.node? p = some m) :
    (s.plant p kind).Grounded := by
  have hold : ∀ id, id ≠ s.nextId p kind →
      Acc (fun p' c => (s.plant p kind).parent? c = some p') id := by
    intro id
    induction id using h.grounded.induction with
    | _ id ih =>
      intro hid
      refine ⟨id, fun q hq => ?_⟩
      rw [parent?_plant hvalid hfits hp, if_neg hid] at hq
      obtain ⟨k, hk, -⟩ := h.node?_of_parent? hq
      exact ih q hq (nextId_ne hvalid hfits hk).symm
  refine ⟨fun id => ?_⟩
  by_cases hid : id = s.nextId p kind
  · refine ⟨id, fun q hq => ?_⟩
    rw [parent?_plant hvalid hfits hp, if_pos hid] at hq
    cases hq
    exact hold p (nextId_ne hvalid hfits hp).symm
  · exact hold id hid

/-- A new last child of a group keeps the tree. -/
theorem Tree.plant (h : s.Tree) (hvalid : s.nodes.Valid)
    (hfits : (s.plant p kind).nodes.Fits) (hp : s.node? p = some m)
    (hgroup : m.kind.isGroup = true) : (s.plant p kind).Tree := by
  refine ⟨?_, fun id n' hn' hid => ?_, fun id n' c hn' hc => ?_, .plant h hvalid hfits hp⟩
  · obtain ⟨n, hn, hgroup, hnone⟩ := h.root
    exact ⟨_, node?_plant_of_node? hvalid hfits hn, hgroup, hnone⟩
  · rcases node?_plant_cases hvalid hfits hp hn' with ⟨rfl, rfl⟩ | ⟨n, hn, rfl⟩
    · have hnot : s.nextId p kind ∉ m.children := by
        intro hin
        obtain ⟨k, hk, -⟩ := h.child hp hin
        exact nextId_ne hvalid hfits hk rfl
      refine ⟨p, _, rfl, node?_plant_of_node? hvalid hfits hp, hgroup, ?_⟩
      simp [List.count_eq_zero.2 hnot]
    · obtain ⟨q, l, hq, hl, hgroup', hcount⟩ := h.parent hn hid
      refine ⟨q, _, hq, node?_plant_of_node? hvalid hfits hl, hgroup', ?_⟩
      have hother : List.count id [s.nextId p kind] = 0 :=
        List.count_eq_zero.2 (by simpa using (nextId_ne hvalid hfits hn).symm)
      dsimp only
      split
      · rw [List.count_append, hcount, hother]
      · exact hcount
  · rcases node?_plant_cases hvalid hfits hp hn' with ⟨rfl, rfl⟩ | ⟨n, hn, rfl⟩
    · simp [Node.ofKind] at hc
    · have hcases : c ∈ n.children ∨ id = p ∧ c = s.nextId p kind := by
        dsimp only at hc
        split at hc
        next heq => simpa [heq] using hc
        next => exact .inl hc
      rcases hcases with hin | ⟨rfl, rfl⟩
      · obtain ⟨l, hl, hparent⟩ := h.child hn hin
        exact ⟨_, node?_plant_of_node? hvalid hfits hl, hparent⟩
      · exact ⟨_, node?_plant_nextId hvalid hfits hp, rfl⟩

end

end Scene

end Freehand
