import Freehand.Proofs.Scene.Fresh
import Freehand.Proofs.Scene.Walk

/-!
# Marks spread to subscribers

The walk after a pass marks the subscribers of every node that it tells (`Scene.Spreads`).  Where
observers leave the scene alone, this and the news are all that it changes.
-/

namespace Freehand

open Scene

variable {R ω : Type}

/-! ## Passive listeners -/

/-- Observers leave the scene alone. -/
structure Listener.Passive (l : Listener R ω) : Prop where
  modified : ∀ o id flags st, (l.modified o id flags st).scene = st.scene
  completed : ∀ o st, (l.completed o st).scene = st.scene

namespace Scene

variable {s s' s'' : Scene R} {id j p : NodeId} {n m : Node R}

/-- The marks that telling the nodes with news spreads to their subscribers. -/
structure Spreads (s s' : Scene R) : Prop where
  keeps : Agree (fun n => (n.raw, n.caches, n.subscribers)) s s'
  grows : ∀ ⦃j n n'⦄, s.node? j = some n → s'.node? j = some n' → n.stale ⊆ n'.stale
  told : ∀ ⦃j n⦄, s.node? j = some n → n.changed ≠ ∅ → s'.News j ∨
    ∀ k ∈ n.subscribers, ∀ m, s'.node? k.node = some m → k.role.stale ⊆ m.stale

namespace Spreads

theorem of_node?_eq (hnode : ∀ id, s'.node? id = s.node? id) : Spreads s s' := by
  refine ⟨.of_node?_eq hnode, fun j n n' hn hn' => ?_, fun j n hn hchanged => ?_⟩
  · rw [hnode, hn] at hn'
    cases hn'
    exact Flags.subset_refl _
  · exact .inl ⟨n, (hnode j).trans hn, hchanged⟩

theorem refl (s : Scene R) : Spreads s s :=
  .of_node?_eq fun _ => rfl

theorem trans (h : Spreads s s') (h' : Spreads s' s'') : Spreads s s'' := by
  refine ⟨h.keeps.trans h'.keeps, fun j n n'' hn hn'' => ?_, fun j n hn hchanged => ?_⟩
  · obtain ⟨n', hn', -⟩ := h'.keeps.symm.node? hn''
    exact Flags.subset_trans (h.grows hn hn') (h'.grows hn' hn'')
  · rcases h.told hn hchanged with ⟨n', hn', hchanged'⟩ | hmarked
    · have heq := h.keeps.part_eq hn hn'
      simp only [Prod.mk.injEq] at heq
      rw [← heq.2.2]
      exact h'.told hn' hchanged'
    · refine .inr fun k hk m'' hm'' => ?_
      obtain ⟨m', hm', -⟩ := h'.keeps.symm.node? hm''
      exact Flags.subset_trans (hmarked k hk m' hm') (h'.grows hm' hm'')

theorem touch (s : Scene R) (id : NodeId) (flags : Flags) : Spreads s (s.touch id flags) := by
  have hnews : Agree (fun n => n.changed) s (s.touch id flags) :=
    agree_touch (fun _ _ => rfl) s id flags
  refine ⟨agree_touch (fun _ _ => rfl) s id flags, fun j n n' hn hn' => ?_,
    fun j n hn hchanged => ?_⟩
  · obtain ⟨k, hk, hsub, -⟩ := stale_touch s id flags hn'
    rw [hn] at hk
    cases hk
    exact hsub
  · obtain ⟨n', hn', heq⟩ := hnews.node? hn
    exact .inl ⟨n', hn', heq ▸ hchanged⟩

/-- Touching subscribers marks each of them. -/
theorem touches : ∀ (ks : List Link) (s : Scene R),
    Spreads s (ks.foldl (fun s k => s.touch k.node k.role.stale) s) ∧
    ∀ k ∈ ks, ∀ m, (ks.foldl (fun s k => s.touch k.node k.role.stale) s).node? k.node = some m →
      k.role.stale ⊆ m.stale := by
  intro ks
  induction ks with
  | nil => exact fun s => ⟨.refl s, nofun⟩
  | cons k ks ih =>
    intro s
    obtain ⟨hspread, hmarked⟩ := ih (s.touch k.node k.role.stale)
    refine ⟨(Spreads.touch s k.node k.role.stale).trans hspread, fun k' hk' m hm => ?_⟩
    rcases List.mem_cons.1 hk' with rfl | hk'
    · obtain ⟨m', hm', -⟩ := hspread.keeps.symm.node? hm
      obtain ⟨-, -, -, hself⟩ := stale_touch s k'.node k'.role.stale hm'
      exact Flags.subset_trans (hself rfl) (hspread.grows hm' hm)
    · exact hmarked k' hk' m hm

/-- Hushing a node is made good for by touching its subscribers. -/
theorem of_hush (hn : s.node? id = some n) (h : Spreads (s.hush id) s') (h' : Spreads s' s'')
    (hmarked : ∀ k ∈ n.subscribers, ∀ m, s''.node? k.node = some m → k.role.stale ⊆ m.stale) :
    Spreads s s'' := by
  have hhush := h.trans h'
  have hsame : ∀ {j k}, s.node? j = some k → ∃ k', (s.hush id).node? j = some k' ∧
      k'.stale = k.stale := by
    intro j k hk
    obtain ⟨k', hk', heq⟩ := (agree_hush (fun _ _ => rfl) s id :
      Agree (fun n => n.stale) s (s.hush id)).node? hk
    exact ⟨k', hk', heq⟩
  refine ⟨(agree_hush (fun _ _ => rfl) s id).trans hhush.keeps, fun j k k' hk hk' => ?_,
    fun j k hk hchanged => ?_⟩
  · obtain ⟨l, hl, hstale⟩ := hsame hk
    exact hstale ▸ hhush.grows hl hk'
  · by_cases hj : j = id
    · rw [hj, hn] at hk
      cases hk
      exact .inr hmarked
    · refine hhush.told ?_ hchanged
      rw [hush, node?_modify_of_ne s _ hj, hk]

end Spreads

theorem cumulative_spreads : Cumulative (Spreads (R := R)) :=
  ⟨.refl, .trans, fun hnodes _ => .of_node?_eq fun id => by rw [node?, node?, hnodes]⟩

end Scene

namespace Listener.Passive

open Stage

variable {l : Listener R ω}

theorem scene_dispatch {tell : ObserverId → Stage R ω → Stage R ω}
    (h : ∀ o st, (tell o st).scene = st.scene) (st : Stage R ω) :
    (dispatch st tell).scene = st.scene := by
  have hfold : ∀ st₀ : Stage R ω,
      (st.observers.foldl (fun st o => tell o st) st₀).scene = st₀.scene := fun st₀ =>
    st.observers.foldlRecOn (motive := fun st => st.scene = st₀.scene) _ rfl
      fun st' hst o _ => (h o st').trans hst
  exact hfold { st with observers := [] }

/-- Telling a node touches its subscribers and does nothing else. -/
theorem scene_notify (hl : l.Passive) (st : Stage R ω) {id : NodeId} {n : Node R}
    (hn : st.scene.node? id = some n) (flags : Flags) : (notify l st id flags).scene =
      n.subscribers.foldl (fun s k => s.touch k.node k.role.stale) st.scene := by
  simp only [notify]
  rw [hn]
  exact scene_dispatch (fun o st => hl.modified o id flags st) _

/-- What touching nodes and clearing their news does, the walk does. -/
theorem rel_notifySubtree (rel : Scene R → Scene R → Prop) (hl : l.Passive)
    (hrefl : ∀ s, rel s s) (htrans : ∀ {s s' s''}, rel s s' → rel s' s'' → rel s s'')
    (htouch : ∀ s id flags, rel s (s.touch id flags)) (hhush : ∀ s id, rel s (s.hush id)) :
    ∀ (levels : Nat) (id : NodeId) (st : Stage R ω),
      rel st.scene (notifySubtree l levels id st).scene := by
  have hnotify : ∀ (st : Stage R ω) id flags, rel st.scene (notify l st id flags).scene := by
    intro st id flags
    cases hn : st.scene.node? id with
    | none =>
      rw [notify, hn]
      exact hrefl st.scene
    | some n =>
      rw [hl.scene_notify st hn flags]
      exact n.subscribers.foldlRecOn _ (hrefl st.scene) fun s hs k _ =>
        htrans hs (htouch s k.node k.role.stale)
  intro levels
  induction levels with
  | zero => exact fun _ st => hrefl st.scene
  | succ levels ih =>
    intro id st
    rw [notifySubtree]
    split
    · exact hrefl st.scene
    next n _ =>
      dsimp only
      split
      · exact hrefl st.scene
      · have hchildren := n.children.foldlRecOn
          (motive := fun st' : Stage R ω => rel st.scene st'.scene)
          (fun st c => notifySubtree l levels c st) (b := { st with scene := st.scene.hush id })
          (hhush st.scene id) fun st' hst c _ => htrans hst (ih c st')
        exact htrans hchildren (hnotify _ id n.changed)

theorem spreads_notify (hl : l.Passive) (st : Stage R ω) {id : NodeId} {n : Node R}
    (hn : st.scene.node? id = some n) (flags : Flags) :
    Spreads st.scene (notify l st id flags).scene ∧
    ∀ k ∈ n.subscribers, ∀ m, (notify l st id flags).scene.node? k.node = some m →
      k.role.stale ⊆ m.stale := by
  rw [hl.scene_notify st hn flags]
  exact Spreads.touches n.subscribers st.scene

/-- Where observers leave the scene alone, telling a subtree marks the subscribers of what had news.
-/
theorem spreads_notifySubtree (hl : l.Passive) :
    ∀ (levels : Nat) (id : NodeId) (st : Stage R ω),
      Spreads st.scene (notifySubtree l levels id st).scene := by
  intro levels
  induction levels with
  | zero => exact fun _ st => .refl st.scene
  | succ levels ih =>
    intro id st
    rw [notifySubtree]
    cases hn : st.scene.node? id with
    | none => exact .refl st.scene
    | some n =>
      dsimp only
      split
      next => exact .refl st.scene
      next =>
        have hchildren := cumulative_spreads.foldl (fun st c => ih c st) n.children
          { st with scene := st.scene.hush id }
        have hkeeps := (agree_hush (fun _ _ => rfl) st.scene id :
          Agree (fun n => (n.raw, n.caches, n.subscribers)) st.scene (st.scene.hush id))
        obtain ⟨n', hn', heq⟩ := (hkeeps.trans hchildren.keeps).node? hn
        simp only [Prod.mk.injEq] at heq
        obtain ⟨hnotify, hmarked⟩ := hl.spreads_notify _ hn' n.changed
        rw [heq.2.2] at hmarked
        exact .of_hush hn hchildren hnotify hmarked

end Listener.Passive

end Freehand
