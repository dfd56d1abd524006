import Freehand.Proofs.Scene.Run

/-!
# Scenes that grow

A scene appends nodes to another one if it has all nodes of that one as they were set, and new ones
besides, which are the last children of one node, their *host* (`Scene.Appends`).

* What is appended adds up, in the order in which it came (`Scene.Appends.trans`).
* A new node is planted as the last child of its host, and then one thing after the other is set of
  it.  Nothing else is touched (`Scene.Appends.store`).
* Observers that leave alone what was set make of an update no more than a change of marks and of
  what the last update left (`Listener.Reserved.kept_runPending`).  They may give all commands but
  those that change a node, add one or remove one (`Conduct.Reserved.listener`).
-/

namespace Freehand

/-- What was set of a node, apart from its children. -/
def Node.given {R : Type} (n : Node R) : Kind R × Style R × Affine R × Bool × Bool ×
    Option NodeId × List Link × List Link :=
  (n.kind, n.style, n.transform, n.hidden, n.locked, n.parent, n.references, n.subscribers)

/-- What was set of a node. -/
def Node.fixed {R : Type} (n : Node R) : (Kind R × Style R × Affine R × Bool × Bool ×
    Option NodeId × List Link × List Link) × List NodeId :=
  (n.given, n.children)

namespace Scene

variable {R : Type} {s t s' s'' : Scene R} {host id : NodeId} {new new' : List NodeId}
  {P Q : Kind R → Prop} {n m : Node R} {kind : Kind R}

/-! ## Appended nodes -/

/-- All nodes stay as they were set.  The new ones are the last children of `host`, which there is
if there are any, and they are of a kind with the property `P`. -/
structure Appends (P : Kind R → Prop) (host : NodeId) (new : List NodeId) (s s' : Scene R) :
    Prop where
  kept : ∀ ⦃id n⦄, s.node? id = some n → ∃ n', s'.node? id = some n' ∧ n'.given = n.given ∧
    n'.children = if id = host then n.children ++ new else n.children
  mem_iff : ∀ id, id ∈ new ↔ s.node? id = none ∧ ∃ n', s'.node? id = some n'
  nodup : new.Nodup
  hosted : new ≠ [] → ∃ m, s.node? host = some m
  holds : ∀ ⦃id n'⦄, id ∈ new → s'.node? id = some n' → n'.parent = some host ∧ P n'.kind

namespace Appends

/-- Scenes that agree in what was set differ by no node. -/
theorem of_agree (h : Agree Node.fixed s s') : Appends P host [] s s' where
  kept id n hn := by
    obtain ⟨n', hn', heq⟩ := h.node? hn
    refine ⟨n', hn', congrArg Prod.fst heq, ?_⟩
    rw [List.append_nil, ite_self]
    exact congrArg Prod.snd heq
  mem_iff id := by
    refine iff_of_false List.not_mem_nil ?_
    rintro ⟨hnone, n', hn'⟩
    obtain ⟨n, hn, -⟩ := h.symm.node? hn'
    rw [hnone] at hn
    cases hn
  nodup := List.nodup_nil
  hosted hne := absurd rfl hne
  holds _ _ hid := absurd hid List.not_mem_nil

/-- What was there is there. -/
theorem node?_eq_none (h : Appends P host new s s') (hnone : s'.node? id = none) :
    s.node? id = none := by
  cases hn : s.node? id with
  | none => rfl
  | some n =>
    obtain ⟨n', hn', -⟩ := h.kept hn
    rw [hnone] at hn'
    cases hn'

/-- Where there is no host, nothing is appended. -/
theorem of_no_host (h : Appends P host new s s') (hnone : s.node? host = none) :
    new = [] ∧ s'.node? host = none := by
  have hnil : new = [] := by
    by_contra hne
    obtain ⟨m, hm⟩ := h.hosted hne
    rw [hnone] at hm
    cases hm
  refine ⟨hnil, ?_⟩
  cases hn' : s'.node? host with
  | none => rfl
  | some n' =>
    have hmem : host ∈ new := (h.mem_iff host).2 ⟨hnone, n', hn'⟩
    rw [hnil] at hmem
    cases hmem

/-- What is appended first stays before what is appended later. -/
theorem trans (h : Appends P host new s s') (h' : Appends P host new' s' s'') :
    Appends P host (new ++ new') s s'' where
  kept id n hn := by
    obtain ⟨n', hn', hgiven, hchildren⟩ := h.kept hn
    obtain ⟨n'', hn'', hgiven', hchildren'⟩ := h'.kept hn'
    refine ⟨n'', hn'', hgiven'.trans hgiven, ?_⟩
    rw [hchildren', hchildren]
    split
    · exact List.append_assoc _ _ _
    · rfl
  mem_iff id := by
    rw [List.mem_append, h.mem_iff, h'.mem_iff]
    constructor
    · rintro (⟨hnone, n', hn'⟩ | ⟨hnone', hsome⟩)
      · obtain ⟨n'', hn'', -⟩ := h'.kept hn'
        exact ⟨hnone, n'', hn''⟩
      · exact ⟨h.node?_eq_none hnone', hsome⟩
    · rintro ⟨hnone, hsome⟩
      cases hn' : s'.node? id with
      | none => exact .inr ⟨rfl, hsome⟩
      | some n' => exact .inl ⟨hnone, n', rfl⟩
  nodup := by
    refine h.nodup.append h'.nodup fun id hid hid' => ?_
    obtain ⟨-, n', hn'⟩ := (h.mem_iff id).1 hid
    rw [((h'.mem_iff id).1 hid').1] at hn'
    cases hn'
  hosted hne := by
    cases hm : s.node? host with
    | some m => exact ⟨m, rfl⟩
    | none =>
      obtain ⟨hnil, hm'⟩ := h.of_no_host hm
      obtain ⟨hnil', -⟩ := h'.of_no_host hm'
      rw [hnil, hnil'] at hne
      exact absurd rfl hne
  holds id n'' hid hn'' := by
    rcases List.mem_append.1 hid with hid | hid
    · obtain ⟨-, n', hn'⟩ := (h.mem_iff id).1 hid
      obtain ⟨k, hk, hgiven, -⟩ := h'.kept hn'
      rw [hn''] at hk
      cases hk
      simp only [Node.given, Prod.mk.injEq] at hgiven
      rw [hgiven.1, hgiven.2.2.2.2.2.1]
      exact h.holds hid hn'
    · exact h'.holds hid hn''

/-! ## A new node -/

/-- After something was set of one node and marked, the nodes are what they were set to. -/
theorem agree_store (s : Scene R) (id : NodeId) (f : Node R → Node R) (flags : Flags) :
    Agree Node.fixed (s.modify id f) ((s.modify id f).touch id flags) :=
  agree_touch (fun _ _ => rfl) _ id flags

/-- Something is set of the new node. -/
theorem store (h : Appends P host [id] s s') {f : Node R → Node R} (flags : Flags)
    (hf : ∀ n, s'.node? id = some n → P n.kind → (f n).parent = n.parent ∧ Q (f n).kind) :
    Appends Q host [id] s ((s'.modify id f).touch id flags) := by
  have hagree := agree_store s' id f flags
  obtain ⟨hnone, n', hn'⟩ := (h.mem_iff id).1 List.mem_cons_self
  refine ⟨fun j n hn => ?_, fun j => ?_, h.nodup, h.hosted, fun j k hj hk => ?_⟩
  · obtain ⟨m, hm, hgiven, hchildren⟩ := h.kept hn
    have hj : j ≠ id := by
      rintro rfl
      rw [hnone] at hn
      cases hn
    obtain ⟨k, hk, heq⟩ := hagree.node? ((node?_modify_of_ne s' f hj).trans hm)
    exact ⟨k, hk, (congrArg Prod.fst heq).trans hgiven, (congrArg Prod.snd heq).trans hchildren⟩
  · rw [h.mem_iff]
    refine and_congr_right fun _ => ?_
    rw [← contains_iff, ← contains_iff]
    have hsame : (((s'.modify id f).touch id flags).node? j).isSome = (s'.node? j).isSome := by
      have := congrArg Option.isSome (hagree j)
      rw [Option.isSome_map, Option.isSome_map, node?_modify] at this
      rw [this]
      split
      · exact Option.isSome_map
      · rfl
    exact Eq.to_iff (congrArg (· = true) hsame.symm)
  · obtain rfl : j = id := List.mem_singleton.1 hj
    obtain ⟨hparent, hkind⟩ := h.holds hj hn'
    obtain ⟨hparent', hkind'⟩ := hf n' hn' hkind
    have hmodified : (s'.modify j f).node? j = some (f n') := by
      rw [node?_modify_self, hn', Option.map_some]
    have heq := hagree.part_eq hmodified hk
    simp only [Node.fixed, Node.given, Prod.mk.injEq] at heq
    obtain ⟨⟨hkindk, -, -, -, -, hparentk, -⟩, -⟩ := heq
    rw [hkindk, hparentk, hparent', hparent]
    exact ⟨rfl, hkind'⟩

end Appends

variable [Scalar R]

/-- Adding a node appends it to its host. -/
theorem appends_insertChild (hvalid : s.nodes.Valid) (hfits : (s.plant host kind).nodes.Fits)
    (hhost : s.node? host = some m) :
    Appends (· = kind) host [s.nextId host kind] s (s.insertChild host kind).2 := by
  have hplant : Appends (· = kind) host [s.nextId host kind] s (s.plant host kind) := by
    refine ⟨fun id n hn => ⟨_, node?_plant_of_node? hvalid hfits hn, rfl, rfl⟩, fun id => ?_,
      List.nodup_singleton _, fun _ => ⟨m, hhost⟩, fun id n' hid hn' => ?_⟩
    · rw [List.mem_singleton]
      constructor
      · rintro rfl
        exact ⟨node?_nextId hvalid hfits, _, node?_plant_nextId hvalid hfits hhost⟩
      · rintro ⟨hnone, n', hn'⟩
        rcases node?_plant_cases hvalid hfits hhost hn' with ⟨hid, -⟩ | ⟨n, hn, -⟩
        · exact hid
        · rw [hnone] at hn
          cases hn
    · obtain rfl := List.mem_singleton.1 hid
      rw [node?_plant_nextId hvalid hfits hhost] at hn'
      cases hn'
      exact ⟨rfl, rfl⟩
  exact hplant.trans (.of_agree (agree_insertChild (fun _ _ => rfl) s host kind))

/-- A new node references nothing. -/
theorem references_insertChild (hvalid : s.nodes.Valid) (hfits : (s.plant host kind).nodes.Fits)
    (hhost : s.node? host = some m) :
    ∃ n, (s.insertChild host kind).2.node? (s.nextId host kind) = some n ∧ n.references = [] := by
  have hagree : Agree Node.references (s.plant host kind) (s.insertChild host kind).2 :=
    agree_insertChild (fun _ _ => rfl) s host kind
  exact hagree.node? (node?_plant_nextId hvalid hfits hhost)

theorem valid_insertChild (hvalid : s.nodes.Valid) (hfits : (s.plant host kind).nodes.Fits) :
    (s.insertChild host kind).2.nodes.Valid := by
  refine (stays_insertChild s host kind).valid ((hvalid.insert _ ?_).modify _ _)
  rwa [Arena.Fits, size_slots_plant] at hfits

/-! ## Updates that leave alone what was set -/

omit [Scalar R]

/-- What was set stays, and so do the slots. -/
structure Kept (s s' : Scene R) : Prop where
  stays : Stays s s'
  agree : Agree Node.fixed s s'

theorem cumulative_kept : Cumulative (Kept (R := R)) where
  refl s := ⟨.refl s, .refl _ s⟩
  trans h h' := ⟨h.stays.trans h'.stays, h.agree.trans h'.agree⟩
  of_nodes_eq hnodes hroot :=
    ⟨⟨hroot, by rw [hnodes], fun hvalid => hnodes ▸ hvalid⟩,
      .of_node?_eq fun id => by rw [node?, node?, hnodes]⟩

end Scene

open Scene Stage

variable {R ω : Type} {l : Listener R ω}

/-- Observers leave alone what was set of the nodes, and neither add nor remove any.  They may mark
nodes stale, let the scene settle, take the damage, come and go. -/
structure Listener.Reserved (l : Listener R ω) : Prop where
  modified : ∀ o id flags st, Kept st.scene (l.modified o id flags st).scene
  completed : ∀ o st, Kept st.scene (l.completed o st).scene

namespace Listener.Reserved

variable [Scalar R]

theorem kept_pass (hl : l.Reserved) (st : Stage R ω) : Kept st.scene (pass l st).scene :=
  cumulative_kept.passes
    (fun s id flags => ⟨stays_touch s id flags, agree_touch (fun _ _ => rfl) s id flags⟩)
    (fun s id => ⟨stays_modify s id _, agree_hush (fun _ _ => rfl) s id⟩)
    (fun s => ⟨stays_updatePass s, agree_updatePass (fun _ _ _ _ _ _ => rfl) s⟩)
    hl.modified hl.completed st

/-- An update leaves alone what was set. -/
theorem kept_runPending (hl : l.Reserved) (st : Stage R ω) :
    Kept st.scene (runPending l st).2.scene :=
  cumulative_kept.runPending hl.kept_pass st

end Listener.Reserved

/-- The command changes nothing that was set. -/
def Command.isReserved : Command R ω → Bool
  | .edit (.requestUpdate _ _) => true
  | .edit _ | .addChild _ _ | .remove _ => false
  | .settle | .runPending | .takeDamage | .addObserver | .removeObserver _ | .record _ => true

/-- Observers give no commands that change what was set. -/
structure Conduct.Reserved (c : Conduct R ω) : Prop where
  modified : ∀ o id flags st, ∀ command ∈ c.modified o id flags st, command.isReserved = true
  completed : ∀ o st, ∀ command ∈ c.completed o st, command.isReserved = true

variable [Scalar R]

/-- Commands that are reserved keep what is set. -/
theorem Listener.Reserved.kept_perform (hl : l.Reserved) (st : Stage R ω) {command : Command R ω}
    (h : command.isReserved = true) : Kept st.scene (st.perform l command).scene := by
  cases command with
  | edit e =>
    cases e with
    | requestUpdate id flags =>
      rw [perform, Stage.edit, Edit.apply, requestUpdate]
      cases st.scene.contains id with
      | true =>
        exact ⟨stays_touch st.scene id flags, agree_touch (fun _ _ => rfl) st.scene id flags⟩
      | false => exact cumulative_kept.refl st.scene
    | _ => cases h
  | addChild _ _ | remove _ => cases h
  | settle => exact cumulative_kept.settle hl.kept_pass st
  | runPending => exact hl.kept_runPending st
  | takeDamage => exact cumulative_kept.of_nodes_eq rfl rfl
  | addObserver | removeObserver _ | record _ => exact cumulative_kept.refl st.scene

theorem Listener.Reserved.kept_run (hl : l.Reserved) {commands : List (Command R ω)}
    (h : ∀ command ∈ commands, command.isReserved = true) (st : Stage R ω) :
    Kept st.scene (st.run l commands).scene :=
  commands.foldlRecOn (motive := fun st' => Kept st.scene st'.scene) _
    (cumulative_kept.refl st.scene)
    fun st' hst command hcommand =>
      cumulative_kept.trans hst (hl.kept_perform st' (h command hcommand))

theorem Conduct.Reserved.listener {c : Conduct R ω} (hc : c.Reserved) :
    ∀ depth, (c.listener depth).Reserved := by
  intro depth
  induction depth with
  | zero =>
    exact ⟨fun _ _ _ st => cumulative_kept.refl st.scene, fun _ st => cumulative_kept.refl st.scene⟩
  | succ depth ih =>
    exact ⟨fun o id flags st => ih.kept_run (hc.modified o id flags st) st,
      fun o st => ih.kept_run (hc.completed o st) st⟩

end Freehand
