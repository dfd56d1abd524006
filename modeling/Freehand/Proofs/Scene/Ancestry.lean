import Freehand.Proofs.Scene.Lookup
import Mathlib.Data.List.Nodup
import Mathlib.Logic.Relation

/-!
# Ancestors

`Scene.ancestors` follows parents for as many steps as there are slots.  In a *grounded* scene,
where following parents ends from every node, that budget suffices: the nodes on the way up from a
node are distinct, and all of them but the last one are in the scene, so there are no more of them
than slots.  Hence `Scene.ancestors` unfolds one parent at a time (`ancestors_of_parent?`) and holds
all nodes above a node (`mem_ancestors_iff`).

Grounded scenes have the *depth* of a node as a measure: a node is one level deeper than its parent.
-/

namespace Freehand.Scene

variable {R β : Type} {s s' : Scene R}

/-! ## Nodes above a node -/

/-- The node `a` is `id` or one of its ancestors. -/
def Above (s : Scene R) (a id : NodeId) : Prop :=
  Relation.ReflTransGen (fun c p => s.parent? c = some p) id a

/-- Following parents ends from every node. -/
def Grounded (s : Scene R) : Prop :=
  WellFounded fun p c => s.parent? c = some p

namespace Above

variable {a b id p : NodeId}

theorem refl (s : Scene R) (id : NodeId) : s.Above id id :=
  Relation.ReflTransGen.refl

theorem of_parent? (h : s.parent? id = some p) (hp : s.Above a p) : s.Above a id :=
  Relation.ReflTransGen.head h hp

theorem trans (h : s.Above a b) (h' : s.Above b id) : s.Above a id :=
  Relation.ReflTransGen.trans h' h

/-- The way up from a node leads through its parent. -/
theorem cases (h : s.Above a id) : a = id ∨ ∃ p, s.parent? id = some p ∧ s.Above a p := by
  rcases Relation.ReflTransGen.cases_head h with heq | ⟨p, hp, hup⟩
  · exact .inl heq.symm
  · exact .inr ⟨p, hp, hup⟩

theorem parent (h : s.Above a id) (hp : s.parent? id = some p) (hne : a ≠ id) : s.Above a p := by
  rcases h.cases with heq | ⟨q, hq, hup⟩
  · exact absurd heq hne
  · rw [hp] at hq
    cases hq
    exact hup

/-- A node below `id` other than `id` is below some child. -/
theorem exists_child {j : NodeId} (h : s.Above id j) (hne : j ≠ id) :
    ∃ c, s.parent? c = some id ∧ s.Above c j := by
  rcases Relation.ReflTransGen.cases_tail h with heq | ⟨c, hup, hc⟩
  · exact absurd heq.symm hne
  · exact ⟨c, hc, hup⟩

/-- Two nodes above a third one are comparable. -/
theorem total (h : s.Above a id) (h' : s.Above b id) : s.Above a b ∨ s.Above b a := by
  refine (Relation.ReflTransGen.total_of_right_unique ?_ h h').symm
  intro c p q hp hq
  rw [hp] at hq
  exact Option.some.inj hq

theorem mono (hsub : ∀ c p, s'.parent? c = some p → s.parent? c = some p) (h : s'.Above a id) :
    s.Above a id :=
  Relation.ReflTransGen.mono hsub _ _ h

end Above

namespace Grounded

variable {a b id p : NodeId}

theorem mono (h : s.Grounded) (hsub : ∀ c p, s'.parent? c = some p → s.parent? c = some p) :
    s'.Grounded :=
  Subrelation.wf (fun hc => hsub _ _ hc) h

theorem not_above_parent (h : s.Grounded) :
    ∀ {id p : NodeId}, s.parent? id = some p → ¬s.Above id p := by
  intro id
  induction id using h.induction with
  | _ id ih =>
    intro p hp hup
    rcases hup.cases with heq | ⟨q, hq, hup'⟩
    · subst heq
      exact ih id hp hp (.refl s id)
    · exact ih p hp hq ((Above.of_parent? hp (.refl s p)).trans hup')

end Grounded

/-! ## The budget for walks along parents -/

/-- There are no more nodes than slots. -/
theorem length_le_slots {ids : List NodeId} (hnodup : ids.Nodup)
    (hlive : ∀ id ∈ ids, ∃ n, s.node? id = some n) : ids.length ≤ s.nodes.slots.size := by
  have hindices : (ids.map fun id => id.index.toNat).Nodup := by
    refine List.Nodup.map_on ?_ hnodup
    intro i hi j hj hij
    obtain ⟨n, hn⟩ := hlive i hi
    obtain ⟨m, hm⟩ := hlive j hj
    exact Arena.eq_of_index_eq hn hm hij
  have hrange : (ids.map fun id => id.index.toNat) ⊆ List.range s.nodes.slots.size := by
    intro k hk
    obtain ⟨id, hid, rfl⟩ := List.mem_map.1 hk
    obtain ⟨n, hn⟩ := hlive id hid
    exact List.mem_range.2 (Arena.index_lt hn)
  have := hindices.length_le_of_subset hrange
  rwa [List.length_map, List.length_range] at this

/-- What is listed on the way up is above the node. -/
theorem above_of_mem_chain {a : NodeId} :
    ∀ {n : Nat} {id : NodeId}, a ∈ s.chain n (some id) → s.Above a id
  | 0, _, h => by simp [chain] at h
  | n + 1, id, h => by
    rw [chain, List.mem_cons] at h
    rcases h with heq | hrest
    · rw [heq]
      exact .refl s id
    · cases hp : s.parent? id with
      | none => simp [hp, chain] at hrest
      | some p =>
        rw [hp] at hrest
        exact .of_parent? hp (above_of_mem_chain hrest)

/-- No node is twice on the way up in a grounded scene. -/
theorem Grounded.nodup_chain (h : s.Grounded) :
    ∀ (n : Nat) (start : Option NodeId), (s.chain n start).Nodup
  | 0, _ => by simp [chain]
  | _ + 1, none => by simp [chain]
  | n + 1, some id => by
    rw [chain, List.nodup_cons]
    refine ⟨?_, h.nodup_chain n _⟩
    intro hmem
    cases hp : s.parent? id with
    | none => simp [hp, chain] at hmem
    | some p =>
      rw [hp] at hmem
      exact h.not_above_parent hp (above_of_mem_chain hmem)

/-- All nodes of a chain but the last one have a parent, so they are in the scene. -/
theorem exists_of_mem_dropLast_chain {a : NodeId} :
    ∀ {n : Nat} {start : Option NodeId}, a ∈ (s.chain n start).dropLast →
      ∃ m, s.node? a = some m
  | 0, _, h => by simp [chain] at h
  | _ + 1, none, h => by simp [chain] at h
  | n + 1, some id, h => by
    rw [chain] at h
    cases hrest : s.chain n (s.parent? id) with
    | nil => simp [hrest] at h
    | cons b rest =>
      rw [hrest, List.dropLast_cons_cons, List.mem_cons] at h
      rcases h with heq | hmem
      · cases hp : s.parent? id with
        | none => simp [hp, chain] at hrest
        | some p =>
          obtain ⟨m, hm, -⟩ := parent?_eq_some_iff.1 hp
          exact ⟨m, by rw [heq]; exact hm⟩
      · rw [← hrest] at hmem
        exact exists_of_mem_dropLast_chain hmem

/-- A chain that did not use up its budget is complete. -/
theorem chain_succ_eq : ∀ {n : Nat} {start : Option NodeId},
    (s.chain (n + 1) start).length ≤ n → s.chain (n + 1) start = s.chain n start
  | _, none, _ => by simp [chain]
  | 0, some id, h => by simp [chain] at h
  | n + 1, some id, h => by
    rw [chain, List.length_cons] at h
    rw [chain, chain_succ_eq (by omega)]
    rfl

theorem Grounded.chain_succ_eq_ancestors (h : s.Grounded) (id : NodeId) :
    s.chain (s.nodes.slots.size + 1) (s.parent? id) = s.ancestors id := by
  refine chain_succ_eq ?_
  have hnodup := h.nodup_chain (s.nodes.slots.size + 2) (some id)
  have hlive : ∀ a ∈ (s.chain (s.nodes.slots.size + 2) (some id)).dropLast,
      ∃ m, s.node? a = some m := fun a => exists_of_mem_dropLast_chain
  have := length_le_slots (hnodup.sublist (List.dropLast_sublist _)) hlive
  rwa [List.length_dropLast, chain, List.length_cons, Nat.add_sub_cancel] at this

/-! ## The ancestors of a node -/

theorem Grounded.nodup_self_ancestors (h : s.Grounded) (id : NodeId) :
    (id :: s.ancestors id).Nodup :=
  h.nodup_chain (s.nodes.slots.size + 1) (some id)

theorem ancestors_of_root {id : NodeId} (h : s.parent? id = none) : s.ancestors id = [] := by
  rw [ancestors, h]
  cases s.nodes.slots.size <;> rfl

theorem Grounded.ancestors_of_parent? (h : s.Grounded) {id p : NodeId}
    (hp : s.parent? id = some p) : s.ancestors id = p :: s.ancestors p := by
  rw [← h.chain_succ_eq_ancestors id, hp, chain]
  rfl

/-- The listed ancestors of a node are what is above its parent. -/
theorem Grounded.mem_ancestors_iff (h : s.Grounded) {a : NodeId} :
    ∀ {id : NodeId}, a ∈ s.ancestors id ↔ ∃ p, s.parent? id = some p ∧ s.Above a p := by
  intro id
  induction id using h.induction with
  | _ id ih =>
    cases hp : s.parent? id with
    | none => simp [ancestors_of_root hp]
    | some p =>
      rw [h.ancestors_of_parent? hp, List.mem_cons, ih p hp]
      constructor
      · rintro (heq | ⟨q, hq, hup⟩)
        · exact ⟨p, rfl, heq ▸ .refl s a⟩
        · exact ⟨p, rfl, .of_parent? hq hup⟩
      · rintro ⟨q, hq, hup⟩
        cases hq
        exact hup.cases

theorem Grounded.mem_self_ancestors_iff (h : s.Grounded) {a id : NodeId} :
    a ∈ id :: s.ancestors id ↔ s.Above a id := by
  rw [List.mem_cons, h.mem_ancestors_iff]
  constructor
  · rintro (heq | ⟨p, hp, hup⟩)
    · rw [heq]
      exact .refl s id
    · exact .of_parent? hp hup
  · exact Above.cases

theorem Grounded.isAncestor_iff (h : s.Grounded) {a id : NodeId} :
    s.isAncestor a id = true ↔ ∃ p, s.parent? id = some p ∧ s.Above a p := by
  rw [isAncestor, List.contains_iff_mem, h.mem_ancestors_iff]

/-! ## Depth -/

/-- The number of ancestors of a node. -/
def depth (s : Scene R) (id : NodeId) : Nat :=
  (s.ancestors id).length

theorem Grounded.depth_of_parent? (h : s.Grounded) {id p : NodeId}
    (hp : s.parent? id = some p) : s.depth id = s.depth p + 1 := by
  rw [depth, h.ancestors_of_parent? hp, List.length_cons, depth]

/-! ## Scenes with the same parents -/

theorem parent?_eq_of_agree (h : Agree Node.parent s s') (id : NodeId) :
    s'.parent? id = s.parent? id := by
  cases hn : s.node? id with
  | none =>
    have hn' := h id
    rw [hn, Option.map_none, Option.map_eq_none_iff] at hn'
    rw [parent?, parent?, hn, hn']
  | some n =>
    obtain ⟨n', hn', hparent⟩ := h.node? hn
    rw [parent?_of_node? hn, parent?_of_node? hn', hparent]

theorem above_iff_of_agree (h : Agree Node.parent s s') {a id : NodeId} :
    s'.Above a id ↔ s.Above a id := by
  simp only [Above, parent?_eq_of_agree h]

end Freehand.Scene
