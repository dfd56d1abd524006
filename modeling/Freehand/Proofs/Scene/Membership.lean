import Freehand.Proofs.Scene.Edits

/-!
# Adding and removing nodes

Both keep a scene sound, and so does adding a node that has to be removed again.  While a subtree is
freed the scene is no tree, but following parents still ends and marks still rise, which is all that
marking needs.
-/

namespace Freehand.Scene

variable {R : Type} {s s' : Scene R} {id p a : NodeId} {n m : Node R}

/-! ## Marks while nodes are freed -/

theorem Grounded.release (h : s.Grounded) (id : NodeId) : (s.release id).Grounded := by
  refine h.mono fun c q hq => ?_
  obtain ⟨k', hk', hparent⟩ := parent?_eq_some_iff.1 hq
  have hc : c ≠ id := fun hc => by
    rw [hc, node?_release_self] at hk'
    cases hk'
  have hplace := place_release s hc
  rw [hk'] at hplace
  obtain ⟨k, hk, heq⟩ := Option.map_eq_some_iff.1 hplace.symm
  simp only [Node.place, Prod.mk.injEq] at heq
  rw [parent?_of_node? hk, heq.2.1, hparent]

theorem agree_withoutTarget (target : NodeId) (s : Scene R) (k : Link) :
    Agree (fun n => (n.parent, n.stale)) s (s.modify k.node (withoutTarget target k.role)) :=
  .modify fun n _ =>
    Prod.ext (parent_withoutTarget target k.role n) (stale_withoutTarget target k.role n)

theorem Rising.dropReference (h : s.Rising) (hg : s.Grounded) (target : NodeId) (k : Link) :
    (dropReference target s k).Rising := by
  have hagree := agree_withoutTarget target s k
  refine (h.of_agree hagree).touch (hg.mono fun c q hq => ?_) k.node _
  rwa [parent?_eq_of_agree (hagree.map Prod.fst)] at hq

theorem Grounded.dropReference (h : s.Grounded) (target : NodeId) (k : Link) :
    (dropReference target s k).Grounded := by
  refine h.mono fun c q hq => ?_
  have hparent : Agree Node.parent s (Scene.dropReference target s k) :=
    (lasting_dropReference target s k).map fun lasting => lasting.1.2.1
  rwa [parent?_eq_of_agree hparent] at hq

theorem Rising.foldl_dropReference (h : s.Rising) (hg : s.Grounded) (target : NodeId)
    (ks : List Link) : (ks.foldl (Scene.dropReference target) s).Rising :=
  (ks.foldlRecOn (motive := fun t : Scene R => t.Rising ∧ t.Grounded) _ ⟨h, hg⟩
    fun _ ⟨ht, htg⟩ k _ => ⟨ht.dropReference htg target k, htg.dropReference target k⟩).1

/-- Marks still rise when a node is freed, as its subscribers are touched. -/
theorem Rising.release (h : s.Rising) (hg : s.Grounded) (id : NodeId) : (s.release id).Rising := by
  rw [Scene.release]
  split
  · exact h
  next n _ =>
    have hclear : Agree (fun n => (n.parent, n.stale)) s
        (s.modify id fun n => { n with subscribers := [], references := [] }) :=
      .modify fun _ _ => rfl
    have hground := hg.mono fun c q hq => by
      rwa [parent?_eq_of_agree (hclear.map Prod.fst)] at hq
    have hdrop := (h.of_agree hclear).foldl_dropReference hground id n.subscribers
    have hunlink := hdrop.of_agree (.foldl
      (fun s (l : Link) => agree_unlink (fun _ _ _ => rfl) s id l.node l.role) n.references _)
    intro j k q l hk hq hl
    rw [node?_free] at hk hl
    split at hk
    · cases hk
    · split at hl
      · cases hl
      · exact hunlink hk hq hl

/-- Both are kept together: marking climbs along parents. -/
theorem Rising.foldl_release (h : s.Rising) (hg : s.Grounded) (ids : List NodeId) :
    (ids.foldl Scene.release s).Rising ∧ (ids.foldl Scene.release s).Grounded :=
  ids.foldlRecOn (motive := fun t : Scene R => t.Rising ∧ t.Grounded) _ ⟨h, hg⟩
    fun _ ⟨ht, htg⟩ id _ => ⟨ht.release htg id, htg.release id⟩

variable [Scalar R] {kind : Kind R}

/-! ## Removing a node -/

/-- A removal keeps a scene sound. -/
theorem Sound.remove {freed : List NodeId} (h : s.Sound) (hrem : s.remove id = .ok (s', freed)) :
    s'.Sound where
  valid := (stays_remove hrem).valid h.valid
  tree := h.tree.remove hrem
  linked := h.linked.remove h.tree hrem
  rising := by
    obtain ⟨-, n, hn, -, rfl⟩ := eq_of_remove_eq_ok hrem
    have hcut : Agree (fun n => (n.parent, n.stale)) s (s.cut id n) :=
      agree_cut h.tree hn fun _ _ => rfl
    have hground : (s.cut id n).Grounded := h.tree.grounded.mono fun c q hq => by
      rwa [parent?_eq_of_agree (hcut.map Prod.fst)] at hq
    obtain ⟨hfreed, hgfreed⟩ := (h.rising.of_agree hcut).foldl_release hground freed
    simp only [touchParent]
    cases n.parent with
    | none => exact hfreed
    | some p => exact hfreed.touch hgfreed p _

/-! ## Adding a node -/

/-- Above an old node there are the same nodes as before. -/
theorem Above.of_plant (hs : s.Tree) (hvalid : s.nodes.Valid)
    (hfits : (s.plant p kind).nodes.Fits) (hp : s.node? p = some m)
    (h : (s.plant p kind).Above a id) (hn : s.node? id = some n) : s.Above a id := by
  induction h using Relation.ReflTransGen.head_induction_on generalizing n with
  | refl => exact .refl s a
  | head hstep _ ih =>
    rw [parent?_plant hvalid hfits hp, if_neg (nextId_ne hvalid hfits hn).symm] at hstep
    obtain ⟨k, hk, -⟩ := hs.node?_of_parent? hstep
    exact .of_parent? hstep (ih hk)

theorem held_ofKind (hsource : kind.source? = none) (parent : Option NodeId) (r : Role) :
    (Node.ofKind kind parent).held r = none := by
  cases r with
  | cloneSource => exact hsource
  | fillServer => rfl
  | strokeServer => rfl

/-- The new node has no links, and nothing references it. -/
theorem Linked.plant (h : s.Linked) (hs : s.Tree) (hvalid : s.nodes.Valid)
    (hfits : (s.plant p kind).nodes.Fits) (hp : s.node? p = some m)
    (hsource : kind.source? = none) : (s.plant p kind).Linked := by
  have hold : ∀ {j k}, s.node? j = some k → ∀ r, (s.plant p kind).held? j r = s.held? j r := by
    intro j k hk r
    rw [held?_of_node? (node?_plant_of_node? hvalid hfits hk), held?_of_node? hk]
    rfl
  have hnew : ∀ r, (s.plant p kind).held? (s.nextId p kind) r = none := by
    intro r
    rw [held?_of_node? (node?_plant_nextId hvalid hfits hp), held_ofKind hsource]
  refine ⟨fun o n' hn' => ?_, fun t m' hm' => ?_, fun o n' hn' t r => ?_, fun t m' hm' o r => ?_,
    fun o n' hn' t r hheld => ?_⟩
  · rcases node?_plant_cases hvalid hfits hp hn' with ⟨rfl, rfl⟩ | ⟨n, hn, rfl⟩
    · exact List.nodup_nil
    · show n.references.Nodup
      exact h.nodup_references hn
  · rcases node?_plant_cases hvalid hfits hp hm' with ⟨rfl, rfl⟩ | ⟨m, hm, rfl⟩
    · exact List.nodup_nil
    · show m.subscribers.Nodup
      exact h.nodup_subscribers hm
  · rcases node?_plant_cases hvalid hfits hp hn' with ⟨rfl, rfl⟩ | ⟨n, hn, rfl⟩
    · simp [hnew, Node.ofKind]
    · rw [hold hn]
      exact h.holds_iff hn t r
  · have hiff : (∃ n', (s.plant p kind).node? o = some n') ∧
        (s.plant p kind).held? o r = some t ↔ (∃ n, s.node? o = some n) ∧ s.held? o r = some t := by
      constructor
      · rintro ⟨⟨n', hn'⟩, hheld⟩
        rcases node?_plant_cases hvalid hfits hp hn' with ⟨rfl, -⟩ | ⟨n, hn, -⟩
        · rw [hnew] at hheld
          cases hheld
        · exact ⟨⟨n, hn⟩, by rw [← hold hn, hheld]⟩
      · rintro ⟨⟨n, hn⟩, hheld⟩
        exact ⟨⟨_, node?_plant_of_node? hvalid hfits hn⟩, by rw [hold hn, hheld]⟩
    rw [hiff]
    rcases node?_plant_cases hvalid hfits hp hm' with ⟨rfl, rfl⟩ | ⟨m, hm, rfl⟩
    · refine iff_of_false List.not_mem_nil ?_
      rintro ⟨⟨n, hn⟩, hheld⟩
      obtain ⟨k, hk, -⟩ := (h.admits hn _ r hheld).target
      exact nextId_ne hvalid hfits hk rfl
    · exact h.mem_subscribers hm o r
  · rcases node?_plant_cases hvalid hfits hp hn' with ⟨rfl, rfl⟩ | ⟨n, hn, rfl⟩
    · rw [hnew] at hheld
      cases hheld
    · rw [hold hn] at hheld
      obtain ⟨⟨k, hk, hrole⟩, hapart⟩ := h.admits hn t r hheld
      exact ⟨⟨_, node?_plant_of_node? hvalid hfits hk, hrole⟩,
        fun hup => hapart (hup.of_plant hs hvalid hfits hp hn)⟩

/-- So does a new node without links. -/
theorem Sound.plant (h : s.Sound) (hfits : (s.plant p kind).nodes.Fits)
    (hp : s.node? p = some m) (hgroup : m.kind.isGroup = true) (hsource : kind.source? = none) :
    (s.plant p kind).Sound where
  valid := by
    refine Arena.Valid.modify (h.valid.insert _ ?_) _ _
    rwa [Arena.Fits, size_slots_plant] at hfits
  tree := h.tree.plant h.valid hfits hp hgroup
  linked := h.linked.plant h.tree h.valid hfits hp hsource
  rising := by
    intro j k' q l' hk' hq hl'
    rcases node?_plant_cases h.valid hfits hp hk' with ⟨rfl, rfl⟩ | ⟨k, hk, rfl⟩
    · exact Flags.empty_subset _
    · -- the parent of an old node is old
      obtain ⟨l, hl, -⟩ := h.tree.node?_of_parent? ((parent?_of_node? hk).trans hq)
      rw [node?_plant_of_node? h.valid hfits hl] at hl'
      cases hl'
      show k.stale ⊆ l.stale
      exact h.rising hk hq hl

omit [Scalar R] in
theorem source?_unlinked (kind : Kind R) : (unlinked kind).source? = none := by
  cases kind <;> rfl

theorem stays_insertChild (s : Scene R) (p : NodeId) (kind : Kind R) :
    Stays (s.plant p kind) (s.insertChild p kind).2 :=
  (stays_touch _ p .membership).trans (stays_touch _ _ .created)

/-- A new node is stored, and then nothing but marks is set. -/
theorem agree_insertChild {β : Type} {part : Node R → β} (h : Unmarked part) (s : Scene R)
    (p : NodeId) (kind : Kind R) : Agree part (s.plant p kind) (s.insertChild p kind).2 :=
  (agree_touch h _ p .membership).trans (agree_touch h _ _ .created)

theorem Sound.insertChild (h : s.Sound) (hfits : (s.plant p kind).nodes.Fits)
    (hp : s.node? p = some m) (hgroup : m.kind.isGroup = true) (hsource : kind.source? = none) :
    (s.insertChild p kind).2.Sound :=
  ((h.plant hfits hp hgroup hsource).touch p _).touch _ _

/-- What adding a node can do to a scene. -/
inductive Added (s : Scene R) (p : NodeId) (kind : Kind R) : Scene R → List NodeId → Prop where
  | refused : Added s p kind s []
  | inserted {m : Node R} (hp : s.node? p = some m) (hgroup : m.kind.isGroup = true) :
      Added s p kind (s.insertChild p (unlinked kind)).2 []
  | linked {m : Node R} {s' : Scene R} {source : NodeId} (hp : s.node? p = some m)
      (hgroup : m.kind.isGroup = true)
      (hlink : (s.insertChild p (unlinked kind)).2.linkClone (s.nextId p (unlinked kind)) source =
        .ok s') : Added s p kind s' []
  | takenBack {m : Node R} {s' : Scene R} {freed : List NodeId} (hp : s.node? p = some m)
      (hgroup : m.kind.isGroup = true)
      (hremove : (s.insertChild p (unlinked kind)).2.remove (s.nextId p (unlinked kind)) =
        .ok (s', freed)) : Added s p kind s' freed

/-- Adding a node is refused, or it inserts the node and links it, or takes it back. -/
theorem added_addChild (s : Scene R) (p : NodeId) (kind : Kind R) :
    Added s p kind (s.addChild p kind).scene (s.addChild p kind).freed := by
  rw [addChild]
  cases hp : s.node? p with
  | none => exact .refused
  | some m =>
    dsimp only
    split
    next hgroup =>
      cases kind.source? with
      | none => exact .inserted hp hgroup
      | some source =>
        dsimp only
        split
        next s' hlink => exact .linked hp hgroup hlink
        next e _ =>
          rw [takeBack]
          split
          next s' freed hremove => exact .takenBack hp hgroup hremove
          next => exact .inserted hp hgroup
    next => exact .refused

end Freehand.Scene
