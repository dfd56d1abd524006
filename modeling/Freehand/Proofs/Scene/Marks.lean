import Freehand.Proofs.Scene.Ancestry

/-!
# Marks rise

In a *rising* scene the marks of a node are on its parent too, so on all its ancestors.  There the
walk that marks a node and its ancestors may stop at the first node that carries the marks already:
the result is that of marking all of them (`touch_eq_markAll`).

Marking in this way keeps a scene rising, so the short cut stays right (`Rising.touch`).
-/

namespace Freehand

/-! ## Sets of aspects -/

namespace Flags

instance : HasSubset Flags := ⟨fun a b => b.contains a = true⟩

variable {a b c : Flags}

/-- Aspects are among others if each of the four is. -/
theorem subset_iff : a ⊆ b ↔ (a.geometry = true → b.geometry = true) ∧
    (a.style = true → b.style = true) ∧ (a.box = true → b.box = true) ∧
    (a.children = true → b.children = true) := by
  show b.contains a = true ↔ _
  cases a
  cases b
  simp only [contains, Bool.and_eq_true, Bool.or_eq_true, Bool.not_eq_true']
  grind

theorem eq_iff : a = b ↔ a.geometry = b.geometry ∧ a.style = b.style ∧ a.box = b.box ∧
    a.children = b.children := by
  cases a
  cases b
  simp

@[simp] theorem geometry_union : (a ∪ b).geometry = (a.geometry || b.geometry) := rfl

@[simp] theorem style_union : (a ∪ b).style = (a.style || b.style) := rfl

@[simp] theorem box_union : (a ∪ b).box = (a.box || b.box) := rfl

@[simp] theorem children_union : (a ∪ b).children = (a.children || b.children) := rfl

theorem subset_trans (h : a ⊆ b) (h' : b ⊆ c) : a ⊆ c := by
  rw [subset_iff] at h h' ⊢
  grind

theorem subset_refl (a : Flags) : a ⊆ a := by
  rw [subset_iff]
  exact ⟨id, id, id, id⟩

theorem subset_union_left (a b : Flags) : a ⊆ a ∪ b := by
  rw [subset_iff]
  simp +contextual

theorem subset_union_right (a b : Flags) : b ⊆ a ∪ b := by
  rw [subset_iff]
  simp +contextual

/-- The union is the least set of aspects with both among it. -/
theorem union_subset (h : a ⊆ c) (h' : b ⊆ c) : a ∪ b ⊆ c := by
  rw [subset_iff] at h h' ⊢
  simp only [geometry_union, style_union, box_union, children_union, Bool.or_eq_true]
  grind

theorem union_subset_union (h : a ⊆ b) (c : Flags) : a ∪ c ⊆ b ∪ c :=
  union_subset (subset_trans h (subset_union_left b c)) (subset_union_right b c)

theorem union_eq_left (h : b ⊆ a) : a ∪ b = a := by
  rw [subset_iff] at h
  rw [eq_iff]
  simp only [geometry_union, style_union, box_union, children_union]
  grind

/-- No aspect is stale if the test says so, and only then. -/
theorem isEmpty_iff : a.isEmpty = true ↔ a = ∅ := by
  rw [eq_iff]
  simp only [isEmpty, Bool.and_eq_true, Bool.not_eq_true']
  exact and_assoc.trans (and_assoc.trans Iff.rfl)

theorem empty_subset (a : Flags) : ∅ ⊆ a := by
  rw [subset_iff]
  exact ⟨nofun, nofun, nofun, nofun⟩

theorem empty_union (a : Flags) : ∅ ∪ a = a := rfl

theorem eq_empty_of_subset (h : a ⊆ ∅) : a = ∅ :=
  (empty_union a).symm.trans (union_eq_left h)

theorem ne_empty_of_subset (h : a ⊆ b) (ha : a ≠ ∅) : b ≠ ∅ :=
  fun hb => ha (eq_empty_of_subset (hb ▸ h))

end Flags

namespace Scene

variable {R : Type} {s s' : Scene R}

/-! ## Marking without a short cut -/

/-- Mark aspects stale on all nodes of a list. -/
def markAll (s : Scene R) (flags : Flags) (ids : List NodeId) : Scene R :=
  ids.foldl (fun s id => s.mark flags id) s

/-- Marking a list marks the nodes on it, once or more often. -/
theorem node?_markAll (flags : Flags) (j : NodeId) : ∀ (ids : List NodeId) (s : Scene R),
    (s.markAll flags ids).node? j =
      if j ∈ ids then (s.node? j).map (Node.marked flags) else s.node? j
  | [], _ => rfl
  | id :: rest, s => by
    have htwice : ∀ n : Node R, (n.marked flags).marked flags = n.marked flags := by
      intro n
      simp only [Node.marked, Flags.union_eq_left (Flags.subset_union_right n.stale flags)]
    have ih : (s.markAll flags (id :: rest)).node? j = _ :=
      node?_markAll flags j rest (s.mark flags id)
    rw [ih, node?_mark]
    by_cases hid : j = id
    · rw [if_pos (List.mem_cons.2 (.inl hid)), if_pos hid]
      split
      · rw [Option.map_map]
        exact congrArg (fun f => (s.node? j).map f) (funext htwice)
      · rfl
    · simp [hid]

/-- Marks that are there already change nothing. -/
theorem markAll_eq_self {flags : Flags} :
    ∀ {ids : List NodeId} {s : Scene R},
      (∀ id ∈ ids, ∀ n, s.node? id = some n → flags ⊆ n.stale) → s.markAll flags ids = s
  | [], _, _ => rfl
  | id :: rest, s, h => by
    have hmark : s.mark flags id = s :=
      modify_eq_self fun n hn => by rw [Flags.union_eq_left (h id (by simp) n hn)]
    rw [markAll, List.foldl_cons, hmark]
    exact markAll_eq_self fun j hj => h j (by simp [hj])

/-! ## Rising scenes -/

/-- The marks of a node are on its parent too. -/
def Rising (s : Scene R) : Prop :=
  ∀ ⦃id n p m⦄, s.node? id = some n → n.parent = some p → s.node? p = some m →
    n.stale ⊆ m.stale

/-- Whether marks rise depends on the parents and the marks of the nodes only. -/
theorem Rising.of_agree (h : s.Rising) (hagree : Agree (fun n => (n.parent, n.stale)) s s') :
    s'.Rising := by
  intro id n' p m' hn' hp hm'
  obtain ⟨n, hn, heq⟩ := hagree.symm.node? hn'
  obtain ⟨m, hm, heq'⟩ := hagree.symm.node? hm'
  simp only [Prod.mk.injEq] at heq heq'
  rw [← heq.2, ← heq'.2]
  exact h hn (heq.1.trans hp) hm

/-- In a list each node is followed by its parent, which carries the marks of the node. -/
def RisingChain (s : Scene R) : List NodeId → Prop :=
  List.IsChain fun id p => ∃ n, s.node? id = some n ∧ n.parent = some p ∧
    ∀ m, s.node? p = some m → n.stale ⊆ m.stale

/-- Marks rise along a list if the nodes on it are the same. -/
theorem RisingChain.congr {ids : List NodeId} (h : s.RisingChain ids)
    (hsame : ∀ id ∈ ids, s'.node? id = s.node? id) : s'.RisingChain ids := by
  induction ids with
  | nil => exact .nil
  | cons id rest ih =>
    cases rest with
    | nil => exact .singleton id
    | cons p rest =>
      obtain ⟨⟨n, hn, hp, hm⟩, hrest⟩ := List.isChain_cons_cons.1 h
      refine List.isChain_cons_cons.2 ⟨⟨n, ?_, hp, ?_⟩, ih hrest ?_⟩
      · rw [hsame id (by simp), hn]
      · rw [hsame p (by simp)]
        exact hm
      · exact fun j hj => hsame j (by simp [hj])

/-- Above a node that carries some marks all nodes carry them. -/
theorem RisingChain.subset_stale {flags : Flags} :
    ∀ {ids : List NodeId} {id : NodeId} {n : Node R}, s.RisingChain (id :: ids) →
      s.node? id = some n → flags ⊆ n.stale →
      ∀ j ∈ id :: ids, ∀ m, s.node? j = some m → flags ⊆ m.stale
  | ids, id, n, hchain, hn, hflags, j, hj, m, hm => by
    rcases List.mem_cons.1 hj with heq | hrest
    · rw [heq, hn] at hm
      cases hm
      exact hflags
    · cases ids with
      | nil => simp at hrest
      | cons p rest =>
        obtain ⟨⟨n', hn', hp, hup⟩, htail⟩ := List.isChain_cons_cons.1 hchain
        rw [hn] at hn'
        cases hn'
        cases hpn : s.node? p with
        | some k =>
          have hflags' := Flags.subset_trans hflags (hup k hpn)
          exact RisingChain.subset_stale htail hpn hflags' j hrest m hm
        | none =>
          -- a node that is gone has no parent, so the chain ends with it
          cases rest with
          | nil =>
            simp only [List.mem_singleton] at hrest
            rw [hrest, hpn] at hm
            cases hm
          | cons q rest =>
            obtain ⟨⟨k, hk, -⟩, -⟩ := List.isChain_cons_cons.1 htail
            rw [hpn] at hk
            cases hk

/-- The climb stops at the first node that carries the marks already.  Where marks rise, all nodes
above carry them too, so the short cut leaves nothing out. -/
theorem RisingChain.markChain_eq_markAll {flags : Flags} :
    ∀ {ids : List NodeId} {s : Scene R}, s.RisingChain ids → ids.Nodup →
      markChain flags s ids = s.markAll flags ids
  | [], _, _, _ => rfl
  | id :: rest, s, hchain, hnodup => by
    obtain ⟨hnot, hnodup'⟩ := List.nodup_cons.1 hnodup
    rw [markChain]
    cases hn : s.node? id with
    | none =>
      refine (markAll_eq_self fun j hj m hm => ?_).symm
      cases rest with
      | nil =>
        rw [List.mem_singleton.1 hj, hn] at hm
        cases hm
      | cons p rest =>
        obtain ⟨⟨k, hk, -⟩, -⟩ := List.isChain_cons_cons.1 hchain
        rw [hn] at hk
        cases hk
    | some n =>
      dsimp only
      split
      next hflags => exact (markAll_eq_self (hchain.subset_stale hn hflags)).symm
      next =>
        have htail : (s.mark flags id).RisingChain rest :=
          RisingChain.congr (List.IsChain.of_cons hchain) fun j hj =>
            node?_modify_of_ne s _ fun heq => hnot (heq ▸ hj)
        exact htail.markChain_eq_markAll hnodup'

/-! ## Marking in a rising scene -/

/-- Where marks rise, they rise along the way up from any node. -/
theorem Rising.risingChain_ancestors (h : s.Rising) (hg : s.Grounded) :
    ∀ id, s.RisingChain (id :: s.ancestors id) := by
  intro id
  induction id using hg.induction with
  | _ id ih =>
    cases hp : s.parent? id with
    | none =>
      rw [ancestors_of_root hp]
      exact .singleton id
    | some p =>
      obtain ⟨n, hn, hparent⟩ := parent?_eq_some_iff.1 hp
      rw [hg.ancestors_of_parent? hp]
      exact List.isChain_cons_cons.2 ⟨⟨n, hn, hparent, fun m hm => h hn hparent hm⟩, ih p hp⟩

/-- The walk that stops at the first marked ancestor does what marking all ancestors does. -/
theorem Rising.touch_eq_markAll (h : s.Rising) (hg : s.Grounded) {id : NodeId} {n : Node R}
    (hn : s.node? id = some n) (flags : Flags) :
    s.touch id flags = (s.markAll flags (id :: s.ancestors id)).schedule := by
  obtain ⟨hnot, hnodup⟩ := List.nodup_cons.1 (hg.nodup_self_ancestors id)
  have hchain : (s.mark flags id).RisingChain (s.ancestors id) :=
    RisingChain.congr (List.IsChain.of_cons (h.risingChain_ancestors hg id)) fun j hj =>
      node?_modify_of_ne s _ fun heq => hnot (heq ▸ hj)
  rw [touch, if_pos (contains_of_node? hn), hchain.markChain_eq_markAll hnodup]
  rfl

/-- There is nothing to touch where no node is. -/
theorem touch_of_gone {id : NodeId} (hn : s.node? id = none) (flags : Flags) :
    s.touch id flags = s := by
  rw [touch, if_neg]
  rw [contains_iff, hn]
  simp

/-- A touch marks the node and all nodes above it. -/
theorem Rising.node?_touch_of_above (h : s.Rising) (hg : s.Grounded) {id j : NodeId}
    (hup : s.Above j id) (flags : Flags) :
    (s.touch id flags).node? j = (s.node? j).map (Node.marked flags) := by
  cases hn : s.node? id with
  | some n =>
    rw [h.touch_eq_markAll hg hn, node?_schedule, node?_markAll,
      if_pos (hg.mem_self_ancestors_iff.2 hup)]
  | none =>
    rcases hup.cases with heq | ⟨p, hp, -⟩
    · rw [touch_of_gone hn, heq, hn, Option.map_none]
    · obtain ⟨n, hn', -⟩ := parent?_eq_some_iff.1 hp
      rw [hn] at hn'
      cases hn'

/-- A touch marks no other node. -/
theorem Rising.node?_touch_of_not_above (h : s.Rising) (hg : s.Grounded) {id j : NodeId}
    (hup : ¬s.Above j id) (flags : Flags) : (s.touch id flags).node? j = s.node? j := by
  cases hn : s.node? id with
  | some n =>
    rw [h.touch_eq_markAll hg hn, node?_schedule, node?_markAll,
      if_neg (mt hg.mem_self_ancestors_iff.1 hup)]
  | none => rw [touch_of_gone hn]

/-- Marks still rise after a touch, which marks the parent of every node that it marks. -/
theorem Rising.touch (h : s.Rising) (hg : s.Grounded) (id : NodeId) (flags : Flags) :
    (s.touch id flags).Rising := by
  intro j n' p m' hn' hparent hm'
  have hagree : Agree Node.parent s (s.touch id flags) := agree_touch (fun _ _ => rfl) s id flags
  obtain ⟨n, hn, hnp⟩ := hagree.symm.node? hn'
  obtain ⟨m, hm, -⟩ := hagree.symm.node? hm'
  have hp : s.parent? j = some p := (parent?_of_node? hn).trans (hnp.trans hparent)
  have hle : n.stale ⊆ m.stale := h hn (hnp.trans hparent) hm
  by_cases hj : s.Above j id
  · have hup : s.Above p id := (Above.of_parent? hp (.refl s p)).trans hj
    rw [h.node?_touch_of_above hg hj, hn] at hn'
    rw [h.node?_touch_of_above hg hup, hm] at hm'
    cases hn'
    cases hm'
    exact Flags.union_subset_union hle flags
  · rw [h.node?_touch_of_not_above hg hj, hn] at hn'
    cases hn'
    by_cases hup : s.Above p id
    · rw [h.node?_touch_of_above hg hup, hm] at hm'
      cases hm'
      exact Flags.subset_trans hle (Flags.subset_union_left m.stale flags)
    · rw [h.node?_touch_of_not_above hg hup, hm] at hm'
      cases hm'
      exact hle

end Scene

end Freehand
