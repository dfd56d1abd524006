import Freehand.Proofs.Scene.Arena
import Freehand.Scene.Basic

/-!
# Looking up nodes after a change

What the changes that a scene is made of do to the lookup `Scene.node?`.

Two scenes *agree* in a part of their nodes when they have the same nodes and this part of each node
is the same.  Marking changes nothing but the marks: afterwards the scenes agree in every part that
does not look at them.
-/

namespace Freehand

/-- The node with aspects marked stale. -/
def Node.marked {R : Type} (flags : Flags) (n : Node R) : Node R :=
  { n with stale := n.stale ∪ flags }

/-- What was set of a node, all that an update reads among it. -/
def Node.raw {R : Type} (n : Node R) :
    Kind R × Affine R × Bool × Style R × Option NodeId × List NodeId :=
  (n.kind, n.transform, n.hidden, n.style, n.parent, n.children)

namespace Scene

variable {R β γ : Type}

/-! ## Single changes -/

theorem contains_iff {s : Scene R} {id : NodeId} :
    s.contains id = true ↔ ∃ n, s.node? id = some n :=
  Arena.contains_iff

theorem contains_of_node? {s : Scene R} {id : NodeId} {n : Node R} (h : s.node? id = some n) :
    s.contains id = true :=
  contains_iff.2 ⟨n, h⟩

theorem node?_eq_none {s : Scene R} {id : NodeId} (h : ¬s.contains id = true) :
    s.node? id = none :=
  Arena.get?_eq_none h

theorem parent?_eq_some_iff {s : Scene R} {id p : NodeId} :
    s.parent? id = some p ↔ ∃ n, s.node? id = some n ∧ n.parent = some p :=
  Option.bind_eq_some_iff

theorem parent?_of_node? {s : Scene R} {id : NodeId} {n : Node R} (h : s.node? id = some n) :
    s.parent? id = n.parent := by
  rw [parent?, h, Option.bind_some]

/-- Changing a node shows under its own identifier only. -/
theorem node?_modify (s : Scene R) (id : NodeId) (f : Node R → Node R) (j : NodeId) :
    (s.modify id f).node? j = if j = id then (s.node? j).map f else s.node? j :=
  s.nodes.get?_modify id f j

theorem node?_modify_self (s : Scene R) (id : NodeId) (f : Node R → Node R) :
    (s.modify id f).node? id = (s.node? id).map f := by
  rw [node?_modify, if_pos rfl]

theorem node?_modify_of_ne (s : Scene R) {id j : NodeId} (f : Node R → Node R) (h : j ≠ id) :
    (s.modify id f).node? j = s.node? j := by
  rw [node?_modify, if_neg h]

/-- A change that keeps the node it is applied to is none. -/
theorem modify_eq_self {s : Scene R} {id : NodeId} {f : Node R → Node R}
    (h : ∀ n, s.node? id = some n → f n = n) : s.modify id f = s := by
  rw [modify]
  rw [Arena.modify_eq_self h]

@[simp] theorem node?_schedule (s : Scene R) (id : NodeId) :
    s.schedule.node? id = s.node? id := by
  rw [schedule]
  split <;> rfl

@[simp] theorem node?_addDamage [Scalar R] (s : Scene R) (area : Option (Rect R)) (id : NodeId) :
    (s.addDamage area).node? id = s.node? id := rfl

/-! ## Agreement -/

/-- The scenes have the same nodes, and a part of each node is the same. -/
def Agree (part : Node R → β) (s s' : Scene R) : Prop :=
  ∀ id, (s'.node? id).map part = (s.node? id).map part

namespace Agree

variable {part : Node R → β} {s s' s'' : Scene R}

theorem refl (part : Node R → β) (s : Scene R) : Agree part s s :=
  fun _ => rfl

theorem of_node?_eq (h : ∀ id, s'.node? id = s.node? id) : Agree part s s' :=
  fun id => by rw [h]

theorem symm (h : Agree part s s') : Agree part s' s :=
  fun id => (h id).symm

theorem trans (h : Agree part s s') (h' : Agree part s' s'') : Agree part s s'' :=
  fun id => (h' id).trans (h id)

/-- Scenes that agree in a part agree in what it determines. -/
theorem map (h : Agree part s s') (g : β → γ) : Agree (fun n => g (part n)) s s' := by
  intro id
  have := congrArg (Option.map g) (h id)
  rwa [Option.map_map, Option.map_map] at this

/-- Scenes that agree have the same nodes. -/
theorem node? (h : Agree part s s') {id : NodeId} {n : Node R} (hn : s.node? id = some n) :
    ∃ n', s'.node? id = some n' ∧ part n' = part n := by
  have := h id
  rw [hn, Option.map_some] at this
  exact Option.map_eq_some_iff.1 this

theorem part_eq (h : Agree part s s') {id : NodeId} {n n' : Node R} (hn : s.node? id = some n)
    (hn' : s'.node? id = some n') : part n' = part n := by
  have := h id
  rw [hn, hn', Option.map_some, Option.map_some] at this
  exact Option.some.inj this

/-- A change of one node that keeps a part of it is no change of that part. -/
theorem modify {id : NodeId} {f : Node R → Node R}
    (h : ∀ n, s.node? id = some n → part (f n) = part n) : Agree part s (s.modify id f) := by
  intro j
  rw [node?_modify]
  split
  next hj =>
    subst hj
    cases hn : s.node? j with
    | none => rfl
    | some n => simp [h n hn]
  next => rfl

/-- Steps that keep a part of all nodes keep it together. -/
theorem foldl {α : Type} {f : Scene R → α → Scene R} (h : ∀ s a, Agree part s (f s a))
    (as : List α) (s : Scene R) : Agree part s (as.foldl f s) :=
  as.foldlRecOn f (.refl part s) fun t ht a _ => ht.trans (h t a)

end Agree

/-! ## Marking -/

theorem node?_mark (s : Scene R) (flags : Flags) (id j : NodeId) :
    (s.mark flags id).node? j =
      if j = id then (s.node? j).map (Node.marked flags) else s.node? j :=
  node?_modify s id _ j

/-- A part of a node that its marks do not reach. -/
def Unmarked (part : Node R → β) : Prop :=
  ∀ (n : Node R) (flags : Flags), part { n with stale := flags } = part n

theorem agree_mark {part : Node R → β} (h : Unmarked part) (s : Scene R) (flags : Flags)
    (id : NodeId) : Agree part s (s.mark flags id) :=
  .modify fun n _ => h n _

/-- Marks that climb up a chain leave the rest of the nodes alone. -/
theorem agree_markChain {part : Node R → β} (h : Unmarked part) (flags : Flags) :
    ∀ (ids : List NodeId) (s : Scene R), Agree part s (markChain flags s ids)
  | [], s => .refl part s
  | id :: rest, s => by
    rw [markChain]
    split
    · exact .refl part s
    · split
      · exact .refl part s
      · exact (agree_mark h s flags id).trans (agree_markChain h flags rest _)

/-- What a touch changes of the nodes are their marks. -/
theorem agree_touch {part : Node R → β} (h : Unmarked part) (s : Scene R) (id : NodeId)
    (flags : Flags) : Agree part s (s.touch id flags) := by
  rw [touch]
  split
  · refine ((agree_mark h s flags id).trans (agree_markChain h flags (s.ancestors id) _)).trans ?_
    exact .of_node?_eq (node?_schedule _)
  · exact .refl part s

/-! ## What changes leave alone -/

/-- The root, the number of slots and the validity of the arena stay. -/
structure Stays (s s' : Scene R) : Prop where
  root : s'.root = s.root
  slots : s'.nodes.slots.size = s.nodes.slots.size
  valid : s.nodes.Valid → s'.nodes.Valid

namespace Stays

variable {s s' s'' : Scene R}

theorem refl (s : Scene R) : Stays s s :=
  ⟨rfl, rfl, id⟩

theorem trans (h : Stays s s') (h' : Stays s' s'') : Stays s s'' :=
  ⟨h'.root.trans h.root, h'.slots.trans h.slots, fun hv => h'.valid (h.valid hv)⟩

theorem foldl {α : Type} {f : Scene R → α → Scene R} (h : ∀ s a, Stays s (f s a))
    (as : List α) (s : Scene R) : Stays s (as.foldl f s) :=
  as.foldlRecOn f (.refl s) fun t ht a _ => ht.trans (h t a)

/-- As many slots are there before as afterwards, so identifiers fit before too. -/
theorem fits (h : Stays s s') (hfits : s'.nodes.Fits) : s.nodes.Fits := by
  rw [Arena.Fits, ← h.slots]
  exact hfits

theorem keeps_fits (h : Stays s s') (hfits : s.nodes.Fits) : s'.nodes.Fits := by
  rw [Arena.Fits, h.slots]
  exact hfits

end Stays

theorem stays_modify (s : Scene R) (id : NodeId) (f : Node R → Node R) :
    Stays s (s.modify id f) :=
  ⟨rfl, Arena.size_slots_modify _ _ _, fun hv => hv.modify id f⟩

theorem stays_schedule (s : Scene R) : Stays s s.schedule := by
  rw [schedule]
  split
  · exact .refl s
  · exact ⟨rfl, rfl, id⟩

/-- Marking adds no slot and frees none. -/
theorem stays_markChain (flags : Flags) :
    ∀ (ids : List NodeId) (s : Scene R), Stays s (markChain flags s ids)
  | [], s => .refl s
  | id :: rest, s => by
    rw [markChain]
    split
    · exact .refl s
    · split
      · exact .refl s
      · exact (stays_modify s id _).trans (stays_markChain flags rest _)

theorem stays_touch (s : Scene R) (id : NodeId) (flags : Flags) : Stays s (s.touch id flags) := by
  rw [touch]
  split
  · exact ((stays_modify s id _).trans (stays_markChain flags _ _)).trans (stays_schedule _)
  · exact .refl s

/-- The scenes differ in their nodes only. -/
def NodesOnly (s s' : Scene R) : Prop :=
  s' = { s with nodes := s'.nodes }

namespace NodesOnly

variable {s s' s'' : Scene R}

theorem refl (s : Scene R) : NodesOnly s s := rfl

theorem trans (h : NodesOnly s s') (h' : NodesOnly s' s'') : NodesOnly s s'' := by
  rw [NodesOnly] at h h' ⊢
  rw [h', h]

end NodesOnly

theorem nodesOnly_modify (s : Scene R) (id : NodeId) (f : Node R → Node R) :
    NodesOnly s (s.modify id f) := rfl

/-- Nothing but nodes is changed by marks. -/
theorem nodesOnly_markChain (flags : Flags) :
    ∀ (ids : List NodeId) (s : Scene R), NodesOnly s (markChain flags s ids)
  | [], s => .refl s
  | id :: rest, s => by
    rw [markChain]
    split
    · exact .refl s
    · split
      · exact .refl s
      · exact (nodesOnly_modify s id _).trans (nodesOnly_markChain flags rest _)

@[simp] theorem root_touch (s : Scene R) (id : NodeId) (flags : Flags) :
    (s.touch id flags).root = s.root :=
  (stays_touch s id flags).root

end Scene

end Freehand
