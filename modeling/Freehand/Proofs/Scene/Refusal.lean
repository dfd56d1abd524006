import Freehand.Proofs.Scene.Course
import Freehand.Proofs.Scene.Growth
import Freehand.Proofs.Scene.InPlace
import Freehand.Proofs.Scene.Survivors

/-!
# Refused changes

A change of a scene that is refused leaves it as it was.  The one exception is a new clone of a node
that it may not show: the clone was in the tree already when that turned out, and is taken back.
What is left of it are marks on its parent and above, an update asked for, and the slot, which
counts as emptied once more (`Scene.TakenBack`).
-/

namespace Freehand

/-! ## Slots -/

namespace Arena

variable {α : Type}

/-- What an arena keeps when a value in it is changed: how often each slot was emptied, which slots
are empty, and the number of values. -/
def outline (a : Arena α) : Array UInt32 × List UInt32 × Nat :=
  (a.slots.map Slot.generation, a.free, a.size)

/-- What a change of one slot does to how often each slot was emptied. -/
theorem generations_modify {f : Slot α → Slot α} {g : UInt32 → UInt32}
    (h : ∀ slot, (f slot).generation = g slot.generation) (slots : Array (Slot α)) (i : Nat) :
    (slots.modify i f).map Slot.generation = (slots.map Slot.generation).modify i g := by
  apply Array.ext_getElem?
  intro j
  rw [Array.getElem?_map, Array.getElem?_modify, Array.getElem?_modify, Array.getElem?_map]
  split
  · rw [Option.map_map, Option.map_map]
    exact congrArg (fun k => (slots[j]?).map k) (funext h)
  · rfl

/-- What a value is does not show in the outline of an arena. -/
theorem outline_modify (a : Arena α) (id : NodeId) (f : α → α) :
    (a.modify id f).outline = a.outline := by
  have hsame : ∀ gs : Array UInt32, gs.modify id.index.toNat (fun g => g) = gs := by
    intro gs
    apply Array.ext_getElem?
    intro j
    rw [Array.getElem?_modify]
    split
    · exact Option.map_id'
    · rfl
  rw [modify]
  split
  · simp only [outline]
    rw [generations_modify (g := fun g => g), hsame]
    exact fun _ => rfl
  · rfl

theorem outline_remove {a : Arena α} {id : NodeId} (hc : a.contains id = true) :
    (a.remove id).outline =
      ((a.slots.map Slot.generation).modify id.index.toNat (· + 1), id.index :: a.free,
        a.size - 1) := by
  rw [remove, if_pos hc, outline, generations_modify (g := (· + 1))]
  exact fun _ => rfl

/-- After a value was stored and removed again, its slot was emptied once more. -/
structure Reused (a : Arena α) (id : NodeId) (a' : Arena α) : Prop where
  others : ∀ i, i ≠ id.index.toNat →
    (a'.slots[i]?).map Slot.generation = (a.slots[i]?).map Slot.generation
  emptied : (a'.slots[id.index.toNat]?).map Slot.generation = some (id.generation + 1)
  free : a'.free = id.index :: a.free.tail
  size : a'.size = a.size

/-- What storing a value does to the slots. -/
theorem outline_insert {a : Arena α} (h : a.Valid) (v : α) (fits : (a.insert v).2.Fits) :
    (∀ i, i ≠ (a.insert v).1.index.toNat →
      ((a.insert v).2.slots[i]?).map Slot.generation = (a.slots[i]?).map Slot.generation) ∧
    ((a.insert v).2.slots[(a.insert v).1.index.toNat]?).map Slot.generation =
      some (a.insert v).1.generation ∧
    (a.insert v).2.free = a.free.tail ∧ (a.insert v).2.size = a.size + 1 := by
  rcases insert_cases h v fits with ⟨i, g, free, hfree, hg, he⟩ | ⟨hfree, i, hi, he⟩
  · rw [he, hfree]
    refine ⟨fun j hj => ?_, ?_, rfl, rfl⟩
    · rw [Array.getElem?_modify, if_neg (Ne.symm hj)]
    · rw [Array.getElem?_modify, if_pos rfl, hg]
      rfl
  · rw [he, hfree]
    refine ⟨fun j hj => ?_, ?_, rfl, rfl⟩
    · have hj' : j ≠ a.slots.size := fun heq => hj (heq.trans hi.symm)
      rw [Array.getElem?_push, if_neg hj']
    · have hlast : (a.slots.push ⟨0, some v⟩)[i.toNat]? = some ⟨0, some v⟩ := by
        rw [hi, Array.getElem?_push, if_pos rfl]
      show ((a.slots.push ⟨0, some v⟩)[i.toNat]?).map Slot.generation = some 0
      rw [hlast]
      rfl

/-- A value was stored, values were changed, the new one was removed, and values were changed. -/
theorem reused_of_outline {a b c : Arena α} (h : a.Valid) (v : α) (fits : (a.insert v).2.Fits)
    (hb : b.outline = (a.insert v).2.outline) (hc : b.contains (a.insert v).1 = true)
    (hremoved : c.outline = (b.remove (a.insert v).1).outline) : Reused a (a.insert v).1 c := by
  obtain ⟨hothers, hself, hfree, hsize⟩ := outline_insert h v fits
  rw [outline_remove hc] at hremoved
  simp only [outline, Prod.mk.injEq] at hb hremoved
  obtain ⟨hslots, hfree', hsize'⟩ := hremoved
  have hgeneration : ∀ i : Nat, (c.slots[i]?).map Slot.generation =
      if (a.insert v).1.index.toNat = i then
        (((a.insert v).2.slots[i]?).map Slot.generation).map (· + 1)
      else ((a.insert v).2.slots[i]?).map Slot.generation := by
    intro i
    rw [← Array.getElem?_map, ← Array.getElem?_map, hslots, hb.1, Array.getElem?_modify]
  refine ⟨fun i hi => ?_, ?_, ?_, ?_⟩
  · rw [hgeneration, if_neg (Ne.symm hi), hothers i hi]
  · rw [hgeneration, if_pos rfl, hself]
    rfl
  · rw [hfree', hb.2.1, hfree]
  · rw [hsize', hb.2.2, hsize]
    rfl

end Arena

/-! ## Taking a node back -/

theorem Flags.union_assoc (a b c : Flags) : a ∪ b ∪ c = a ∪ (b ∪ c) := by
  simp [Flags.eq_iff, Bool.or_assoc]

/-- A node that lost a child. -/
def Node.without {R : Type} (id : NodeId) (n : Node R) : Node R :=
  { n with children := n.children.filter fun c => c ≠ id }

theorem Node.marked_marked {R : Type} (n : Node R) (a b : Flags) :
    (n.marked a).marked b = n.marked (a ∪ b) := by
  simp only [Node.marked, Flags.union_assoc]

namespace Scene

variable {R : Type} {s s' s'' : Scene R} {id j p : NodeId} {n m : Node R}

theorem NodesOnly.schedule (h : NodesOnly s s') : NodesOnly s.schedule s'.schedule := by
  rw [NodesOnly] at h ⊢
  generalize s'.nodes = nodes at h
  subst h
  cases s with
  | mk old root maxPasses pending lastToken damage stats => cases pending <;> rfl

theorem schedule_schedule (s : Scene R) : s.schedule.schedule = s.schedule := by
  cases s with
  | mk nodes root maxPasses pending lastToken damage stats => cases pending <;> rfl

/-- Marks aside, touching a node asks for an update. -/
theorem nodesOnly_touch (hid : s.contains id = true) (flags : Flags) :
    NodesOnly s.schedule (s.touch id flags) := by
  rw [touch, if_pos hid]
  exact ((nodesOnly_modify s id _).trans (nodesOnly_markChain flags _ _)).schedule

/-- To ask for an update again does nothing. -/
theorem NodesOnly.touch (h : NodesOnly s.schedule s') (id : NodeId) (flags : Flags) :
    NodesOnly s.schedule (s'.touch id flags) := by
  by_cases hid : s'.contains id = true
  · have hagain := h.schedule
    rw [schedule_schedule] at hagain
    exact hagain.trans (nodesOnly_touch hid flags)
  · rw [Scene.touch, if_neg hid]
    exact h

theorem outline_markChain (flags : Flags) :
    ∀ (ids : List NodeId) (s : Scene R), (markChain flags s ids).nodes.outline = s.nodes.outline
  | [], _ => rfl
  | id :: rest, s => by
    rw [markChain]
    split
    · rfl
    · split
      · rfl
      · exact (outline_markChain flags rest _).trans (Arena.outline_modify _ id _)

theorem outline_touch (s : Scene R) (id : NodeId) (flags : Flags) :
    (s.touch id flags).nodes.outline = s.nodes.outline := by
  rw [touch]
  split
  · have hnodes : ∀ t : Scene R, t.schedule.nodes = t.nodes := fun t => by
      rw [schedule]
      split <;> rfl
    rw [hnodes, outline_markChain]
    exact Arena.outline_modify _ id _
  · rfl

/-- A node that nothing is linked to is freed without a trace. -/
theorem release_bare (hn : s.node? id = some n) (hsubscribers : n.subscribers = [])
    (hreferences : n.references = []) :
    s.release id = { s with
      nodes := (s.nodes.modify id fun n => { n with subscribers := [], references := [] }).remove
        id } := by
  rw [release, hn]
  dsimp only
  rw [hsubscribers, hreferences]
  rfl

/-- What is left of a node that was added below `p` and taken back: marks on `p` and above, an
update asked for, and the slot, which counts as emptied once more. -/
structure TakenBack (s : Scene R) (p id : NodeId) (s' : Scene R) : Prop where
  marked : ∀ j, s.Above j p →
    s'.node? j = (s.node? j).map (Node.marked (.membership ∪ .created))
  same : ∀ j, ¬s.Above j p → s'.node? j = s.node? j
  reused : s.nodes.Reused id s'.nodes
  asked : NodesOnly s.schedule s'

variable [Scalar R] {kind : Kind R}

/-- A node without children, links and a box that is removed is freed alone. -/
theorem remove_leaf (h : s.Sound) (hid : id ≠ s.root) (hn : s.node? id = some n)
    (hbare : { n with stale := ∅ } = { Node.ofKind kind (some p) with stale := ∅ }) :
    ∃ (s' : Scene R) (nodes : Arena (Node R)),
      s.remove id = .ok (s'.touch p .membership, [id]) ∧ s'.Rising ∧ s'.Grounded ∧
      (∀ j, s'.node? j = if j = id then none else (s.node? j).map (Node.without id)) ∧
      s' = { s with nodes := nodes.remove id } ∧ nodes.outline = s.nodes.outline ∧
      nodes.contains id = true := by
  have hchildren : n.children = [] := congrArg Node.children hbare
  have hparent : n.parent = some p := congrArg Node.parent hbare
  have hsubscribers : n.subscribers = [] := congrArg Node.subscribers hbare
  have hreferences : n.references = [] := congrArg Node.references hbare
  have hbox : n.box = none := congrArg Node.box hbare
  obtain ⟨-, hrising, hgrounded⟩ := h.cut hn
  have hremoved := remove_eq_ok hid hn
  rw [h.tree.subtree_cut hn, h.tree.subtree_eq hn, hchildren, hparent] at hremoved
  have hsame : ∀ j, (s.cut id n).node? j = (s.node? j).map (Node.without id) :=
    node?_cut h.tree hn
  have hlive : (s.cut id n).node? id = some (n.without id) := by
    rw [hsame, hn]
    rfl
  have hfreed := release_bare hlive hsubscribers hreferences
  have hcut : s.cut id n = s.modify p (Node.without id) := by
    rw [cut, hparent, hbox, addDamage_none]
    rfl
  refine ⟨(s.cut id n).release id, ((s.cut id n).modify id fun n =>
    { n with subscribers := [], references := [] }).nodes, hremoved,
    hrising.release hgrounded id, hgrounded.release id, fun j => ?_, ?_, ?_, ?_⟩
  · rw [← hsame]
    split
    next hj => rw [hj, node?_release_self]
    next hj =>
      rw [hfreed]
      exact ((node?_free ((s.cut id n).modify id _) id j).trans (if_neg hj)).trans
        (node?_modify_of_ne _ _ hj)
  · rw [hfreed, hcut]
    rfl
  · rw [hcut]
    exact (Arena.outline_modify _ id _).trans (Arena.outline_modify _ p _)
  · have hcleared := node?_modify_self (s.cut id n) id fun n =>
      { n with subscribers := [], references := [] }
    rw [hlive] at hcleared
    exact contains_of_node? hcleared

section

variable (h : s.Sound) (hfits : (s.plant p kind).nodes.Fits) (hp : s.node? p = some m)
include h hfits

/-- Without the new node, its parent has the children that it had. -/
theorem node?_plant_filter (hj : j ≠ s.nextId p kind) :
    ((s.plant p kind).node? j).map (Node.without (s.nextId p kind)) = s.node? j := by
  cases hk : s.node? j with
  | none =>
    rw [node?_plant h.valid hfits hj, hk]
    simp
  | some k =>
    have hold : k.children.filter (fun c => c ≠ s.nextId p kind) = k.children := by
      refine List.filter_eq_self.2 fun c hc => decide_eq_true fun heq => ?_
      obtain ⟨l, hl, -⟩ := h.tree.child hk hc
      exact nextId_ne h.valid hfits hl heq.symm
    rw [node?_plant_of_node? h.valid hfits hk, Option.map_some]
    split
    · simp only [Node.without, List.filter_append, hold]
      simp
    · simp only [Node.without, hold]

include hp

/-- The new node is as it was stored, but for marks. -/
theorem node?_insertChild_nextId :
    ∃ n, (s.insertChild p kind).2.node? (s.nextId p kind) = some n ∧
      { n with stale := ∅ } = { Node.ofKind kind (some p) with stale := ∅ } := by
  have hagree : Agree (fun n => { n with stale := ∅ }) (s.plant p kind) (s.insertChild p kind).2 :=
    agree_insertChild (fun _ _ => rfl) s p kind
  exact hagree.node? (node?_plant_nextId h.valid hfits hp)

/-- What was above an old node still is. -/
theorem Above.plant {a : NodeId} (hup : s.Above a id) : (s.plant p kind).Above a id :=
  hup.mono fun c q hq => by
    rw [parent?_plant h.valid hfits hp, if_neg ?_, hq]
    rintro rfl
    rw [parent?, node?_nextId h.valid hfits] at hq
    cases hq

/-- Above the new node is what is above its parent. -/
theorem above_plant_iff (hj : j ≠ s.nextId p kind) :
    ((s.plant p kind).touch p .membership).Above j (s.nextId p kind) ↔ s.Above j p := by
  have hparent : Agree Node.parent (s.plant p kind) ((s.plant p kind).touch p .membership) :=
    agree_touch (fun _ _ => rfl) _ p .membership
  have hnew : (s.plant p kind).parent? (s.nextId p kind) = some p := by
    rw [parent?_plant h.valid hfits hp, if_pos rfl]
  rw [above_iff_of_agree hparent]
  constructor
  · intro hup
    exact (hup.parent hnew hj).of_plant h.tree h.valid hfits hp hp
  · intro hup
    exact .of_parent? hnew (hup.plant h hfits hp)

variable (hgroup : m.kind.isGroup = true) (hsource : kind.source? = none)
include hgroup hsource

/-- The parent of the new node and all nodes above it are marked twice. -/
theorem node?_insertChild_of_above (hj : j ≠ s.nextId p kind) (hup : s.Above j p) :
    (s.insertChild p kind).2.node? j =
      ((s.plant p kind).node? j).map (Node.marked (.membership ∪ .created)) := by
  have hplant := h.plant hfits hp hgroup hsource
  have htouch := hplant.touch p .membership
  have hold := hplant.rising.node?_touch_of_above hplant.tree.grounded (hup.plant h hfits hp)
    .membership
  have hnew := htouch.rising.node?_touch_of_above htouch.tree.grounded
    ((above_plant_iff h hfits hp hj).2 hup) .created
  refine hnew.trans ?_
  rw [hold, Option.map_map]
  exact congrArg (fun f => ((s.plant p kind).node? j).map f)
    (funext fun n => n.marked_marked .membership .created)

/-- The other nodes are not marked. -/
theorem node?_insertChild_of_not_above (hj : j ≠ s.nextId p kind) (hup : ¬s.Above j p) :
    (s.insertChild p kind).2.node? j = (s.plant p kind).node? j := by
  have hplant := h.plant hfits hp hgroup hsource
  have htouch := hplant.touch p .membership
  have hup' : ¬(s.plant p kind).Above j p := fun hup' =>
    hup (hup'.of_plant h.tree h.valid hfits hp hp)
  have hnew := htouch.rising.node?_touch_of_not_above htouch.tree.grounded
    (mt (above_plant_iff h hfits hp hj).1 hup) .created
  exact hnew.trans (hplant.rising.node?_touch_of_not_above hplant.tree.grounded hup' .membership)

/-- A new node is taken back without a trace but for marks on its parent and above. -/
theorem Sound.takenBack : ∃ s', (s.insertChild p kind).2.remove (s.nextId p kind) =
    .ok (s', [s.nextId p kind]) ∧ s.TakenBack p (s.nextId p kind) s' := by
  obtain ⟨n, hn, hbare⟩ := node?_insertChild_nextId h hfits hp
  have hinserted := h.insertChild hfits hp hgroup hsource
  have hroot : s.nextId p kind ≠ (s.insertChild p kind).2.root := by
    obtain ⟨k, hk, -⟩ := h.tree.root
    rw [(stays_insertChild s p kind).root]
    exact nextId_ne h.valid hfits hk
  obtain ⟨v, nodes, hremoved, hrising, hgrounded, hnode, hv, houtline, hcontains⟩ :=
    remove_leaf hinserted hroot hn hbare
  have hgone : s.node? (s.nextId p kind) = none := node?_nextId h.valid hfits
  have hold : ∀ {j}, j ≠ s.nextId p kind → v.node? j =
      ((s.insertChild p kind).2.node? j).map (Node.without (s.nextId p kind)) := fun hj =>
    (hnode _).trans (if_neg hj)
  have hparent : ∀ j, v.parent? j = s.parent? j := by
    intro j
    by_cases hj : j = s.nextId p kind
    · rw [hj, parent?, parent?, hnode, if_pos rfl, hgone]
    · have hagree : Agree Node.parent (s.plant p kind) (s.insertChild p kind).2 :=
        agree_insertChild (fun _ _ => rfl) s p kind
      have hplant : (s.plant p kind).parent? j = s.parent? j := by
        rw [parent?_plant h.valid hfits hp, if_neg hj]
      rw [← hplant, ← parent?_eq_of_agree hagree, parent?, hold hj, parent?]
      cases (s.insertChild p kind).2.node? j <;> rfl
  have habove : ∀ j, v.Above j p ↔ s.Above j p := fun j =>
    ⟨fun hup => hup.mono fun c q hq => (hparent c).symm.trans hq,
      fun hup => hup.mono fun c q hq => (hparent c).trans hq⟩
  refine ⟨_, hremoved, fun j hup => ?_, fun j hup => ?_, ?_, ?_⟩
  · have hj : j ≠ s.nextId p kind := by
      rintro rfl
      obtain ⟨k, hk⟩ := h.tree.node?_of_above hp hup
      rw [hgone] at hk
      cases hk
    rw [hrising.node?_touch_of_above hgrounded ((habove j).2 hup), hold hj,
      node?_insertChild_of_above h hfits hp hgroup hsource hj hup, ← node?_plant_filter h hfits hj]
    have htwice : ∀ n : Node R,
        ((n.without (s.nextId p kind)).marked (.membership ∪ .created)).marked .membership =
          (n.without (s.nextId p kind)).marked (.membership ∪ .created) := fun n =>
      Node.marked_marked _ _ _
    rw [Option.map_map, Option.map_map, Option.map_map]
    exact congrArg (fun f => ((s.plant p kind).node? j).map f) (funext htwice)
  · rw [hrising.node?_touch_of_not_above hgrounded (mt (habove j).1 hup)]
    by_cases hj : j = s.nextId p kind
    · rw [hnode, if_pos hj, hj, hgone]
    · rw [hold hj, node?_insertChild_of_not_above h hfits hp hgroup hsource hj hup,
        node?_plant_filter h hfits hj]
  · have hinsert : (s.insertChild p kind).2.nodes.outline =
        (s.nodes.insert (.ofKind kind (some p))).2.outline :=
      ((outline_touch _ _ _).trans (outline_touch _ _ _)).trans (Arena.outline_modify _ _ _)
    have hfits' : (s.nodes.insert (.ofKind kind (some p))).2.Fits := by
      rwa [Arena.Fits, size_slots_plant] at hfits
    refine Arena.reused_of_outline h.valid _ hfits' (houtline.trans hinsert) hcontains ?_
    rw [outline_touch, hv]
    rfl
  · have hplant : NodesOnly s (s.plant p kind) := rfl
    have hlive := contains_of_node? (node?_plant_of_node? h.valid hfits hp)
    have hinsert : NodesOnly s.schedule (s.insertChild p kind).2 :=
      (hplant.schedule.trans (nodesOnly_touch hlive _)).touch _ _
    have hfreed : NodesOnly (s.insertChild p kind).2 v := by
      rw [NodesOnly, hv]
    exact (hinsert.trans hfreed).touch p _

end

theorem fits_plant (hroom : s.nodes.slots.size < UInt32.size) (p : NodeId) (kind : Kind R) :
    (s.plant p kind).nodes.Fits := by
  rw [Arena.Fits, size_slots_plant, Arena.insert]
  split
  · rw [Array.size_modify]
    exact Nat.le_of_lt hroom
  · rw [Array.size_push]
    exact hroom

/-- Why a new clone `id` below `p` may not show a node: the node is gone, a gradient, the clone
itself or a group that the clone is in. -/
inductive Barred (s : Scene R) (p id source : NodeId) : SceneError → Prop where
  | gone (hne : source ≠ id) (hgone : s.node? source = none) :
      Barred s p id source (.staleHandle source)
  | gradient {n : Node R} (hn : s.node? source = some n) (hgradient : n.kind.isGradient = true) :
      Barred s p id source (.referenceRefused id source)
  | above (hup : source = id ∨ s.Above source p) :
      Barred s p id source (.referenceRefused id source)

omit [Scalar R] in
/-- A live clone is not let show a node that is gone, a gradient, itself or a node above. -/
theorem cases_of_linkClone_error {e : SceneError} {source : NodeId} (hn : s.node? id = some n)
    (hclone : n.kind.isClone = true) (h : s.linkClone id source = .error e) :
    (s.node? source = none ∧ e = .staleHandle source) ∨
      ∃ k, s.node? source = some k ∧ e = .referenceRefused id source ∧
        (k.kind.isGradient = true ∨ source = id ∨ s.isAncestor source id = true) := by
  have hcheck : s.checkSource id source = .error e := by
    rw [linkClone, checkClone, hn] at h
    dsimp only at h
    rw [if_pos hclone] at h
    cases hcheck : s.checkSource id source with
    | ok =>
      rw [hcheck] at h
      cases h
    | error e' =>
      rw [hcheck] at h
      cases h
      rfl
  rw [checkSource] at hcheck
  split at hcheck
  next hgone =>
    cases hcheck
    exact .inl ⟨hgone, rfl⟩
  next k hk =>
    refine .inr ⟨k, hk, ?_⟩
    split at hcheck
    next hgradient =>
      cases hcheck
      exact ⟨rfl, .inl hgradient⟩
    next =>
      rw [acceptReference, if_neg (by simp [contains_of_node? hn]),
        if_neg (by simp [contains_of_node? hk])] at hcheck
      split at hcheck
      next hup =>
        cases hcheck
        exact ⟨rfl, .inr hup⟩
      next => cases hcheck

/-- If a new clone cannot be linked, its source is gone, a gradient, or above it.  The clone itself
is no source, since it has no identifier before it is there. -/
theorem barred_linkClone {e : SceneError} {source : NodeId} (h : s.Sound)
    (hfits : (s.plant p (.clone none)).nodes.Fits) (hp : s.node? p = some m)
    (hgroup : m.kind.isGroup = true)
    (hrefused : (s.insertChild p (.clone none)).2.linkClone (s.nextId p (.clone none)) source =
      .error e) :
    s.Barred p (s.nextId p (.clone none)) source e := by
  have happends := appends_insertChild h.valid hfits hp
  have hagree : Agree Node.parent (s.plant p (.clone none)) (s.insertChild p (.clone none)).2 :=
    agree_insertChild (fun _ _ => rfl) s p _
  have hgrounded := (h.tree.plant h.valid hfits hp hgroup).grounded.mono fun c q hq =>
    (parent?_eq_of_agree hagree c).symm.trans hq
  obtain ⟨n, hn, hbare⟩ := node?_insertChild_nextId h hfits hp
  have hkind : n.kind = .clone none := congrArg Node.kind hbare
  have hclone : n.kind.isClone = true := by
    rw [hkind]
    rfl
  generalize hid : s.nextId p (.clone none) = id at *
  generalize (s.insertChild p (.clone none)).2 = t at *
  rcases cases_of_linkClone_error hn hclone hrefused with
    ⟨hgone, rfl⟩ | ⟨k, hk, rfl, hgradient | rfl | hancestor⟩
  · refine .gone (fun heq => ?_) (happends.node?_eq_none hgone)
    rw [heq, hn] at hgone
    cases hgone
  · have hne : source ≠ id := by
      rintro rfl
      cases hn.symm.trans hk
      rw [hkind] at hgradient
      cases hgradient
    cases hl : s.node? source with
    | none => exact absurd ((happends.mem_iff source).2 ⟨hl, k, hk⟩) (by simpa using hne)
    | some l =>
      obtain ⟨k', hk', hgiven, -⟩ := happends.kept hl
      cases hk.symm.trans hk'
      have hsame : k.kind = l.kind := congrArg Prod.fst hgiven
      exact .gradient hl (hsame ▸ hgradient)
  · exact .above (.inl rfl)
  · obtain ⟨q, hq, hup⟩ := hgrounded.isAncestor_iff.1 hancestor
    have hparent : n.parent = some p := congrArg Node.parent hbare
    rw [parent?_of_node? hn, hparent] at hq
    cases hq
    exact .above (.inr (((above_iff_of_agree hagree).1 hup).of_plant h.tree h.valid hfits hp hp))

end Scene

/-! ## Refused calls -/

namespace Mutator

variable {R ω : Type} [Scalar R]

/-- What a refused call leaves: the stage as it was, or what is left of a clone taken back, of whose
release the observers were told. -/
inductive Refused (l : Listener R ω) (st : Stage R ω) :
    Mutator R → SceneError → Stage R ω → Prop where
  | unchanged {call : Mutator R} {e : SceneError} : Refused l st call e st
  | takenBack {p id source : NodeId} {m : Node R} {e : SceneError} {s' : Scene R}
      (hp : st.scene.node? p = some m) (hgroup : m.kind.isGroup = true)
      (hgone : st.scene.node? id = none) (hbarred : st.scene.Barred p id source e)
      (htaken : st.scene.TakenBack p id s') :
      Refused l st (.addChild p (.clone (some source))) e
        (Stage.announce l (st.withScene s') [id])

end Mutator

namespace Action

open Scene Stage Mutator

variable {R ω : Type} [Scalar R] {l : Listener R ω} {st st' : Stage R ω} {e : SceneError}

theorem run_map {ε σ α β : Type} (f : α → β) (c : Action ε σ α) (st : σ) :
    run (f <$> c) st = ((run c st).1.map f, (run c st).2) := by
  show run (c >>= fun a => pure (f a)) st = _
  rw [run_bind]
  rcases run c st with ⟨_ | _, _⟩ <;> rfl

/-- Made in place, every call does what it does as a whole. -/
theorem run_mutator (hs : st.scene.Sound) (hroom : st.scene.nodes.slots.size < UInt32.size)
    (l : Listener R ω) (call : Mutator R) :
    run (call.inPlace l) st = call.perform l st := by
  cases call with
  | edit e =>
    rw [Mutator.inPlace, run_bind, e.run_inPlace, Mutator.perform, Stage.edit, answer]
    cases e.apply st.scene <;> rfl
  | addChild p kind =>
    have hfits := fits_plant hroom p (unlinked kind)
    rw [Mutator.inPlace, run_map, run_addChild st hs hfits]
    rfl
  | remove id =>
    rw [Mutator.inPlace, run_bind, run_remove st hs.tree, Mutator.perform]
    cases st.remove l id <;> rfl

/-- A node is refused before anything is changed, but for a clone with a source that it may not
show. -/
theorem refused_addChild (hs : st.scene.Sound)
    (hroom : st.scene.nodes.slots.size < UInt32.size) {p : NodeId} {kind : Kind R}
    (h : st.addChild l p kind = (.error e, st')) : Refused l st (.addChild p kind) e st' := by
  cases hp : st.scene.node? p with
  | none =>
    rw [Stage.addChild, Scene.addChild, hp] at h
    cases h
    exact .unchanged
  | some m =>
    by_cases hgroup : m.kind.isGroup = true
    · cases hsource : kind.source? with
      | none =>
        rw [Stage.addChild, Scene.addChild, hp] at h
        dsimp only at h
        rw [if_pos hgroup, hsource] at h
        cases h
      | some source =>
        obtain rfl : kind = .clone (some source) := by
          cases kind with
          | clone target => exact congrArg Kind.clone hsource
          | group layer | path elements | gradient stops => cases hsource
        have hfits := fits_plant hroom p (.clone none)
        obtain ⟨s', hremoved, htaken⟩ := hs.takenBack hfits hp hgroup rfl
        rw [addChild_eq st hp hgroup hsource] at h
        split at h
        next => cases h
        next e' hrefused =>
          have hback : (st.scene.insertChild p (.clone none)).2.takeBack
              (st.scene.nextId p (.clone none)) e' =
                ⟨.error e', s', [st.scene.nextId p (.clone none)]⟩ := by
            rw [takeBack, hremoved]
          rw [unlinked, hback] at h
          cases h
          exact .takenBack hp hgroup (node?_nextId hs.valid hfits)
            (barred_linkClone hs hfits hp hgroup hrefused) htaken
    · rw [Stage.addChild, Scene.addChild, hp] at h
      dsimp only at h
      rw [if_neg hgroup] at h
      cases h
      exact .unchanged

/-- A refused call leaves the stage as it was, unless it took a clone back. -/
theorem refused_of_run (hs : st.scene.Sound)
    (hroom : st.scene.nodes.slots.size < UInt32.size) {call : Mutator R}
    (h : run (call.inPlace l) st = (.error e, st')) : Refused l st call e st' := by
  rw [run_mutator hs hroom] at h
  cases call with
  | edit edit =>
    rw [eq_of_whole_eq_error h]
    exact .unchanged
  | addChild p kind =>
    rw [Mutator.perform] at h
    cases hadd : st.addChild l p kind with
    | mk result left =>
      rw [hadd] at h
      cases result with
      | ok id => cases h
      | error e' =>
        cases h
        exact refused_addChild hs hroom hadd
  | remove id =>
    rw [eq_of_whole_eq_error h]
    exact .unchanged

end Action

end Freehand
