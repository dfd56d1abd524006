import Freehand.Proofs.Scene.News
import Freehand.Scene.Stage

/-!
# The walk that tells what changed

A listener is *orderly* when its observers do no more to a scene than evolve it.  For such a
listener the walk after a pass tells all news: a node is told when it and all nodes above it have
news, and after a pass these are all nodes that have any (`Listener.Orderly.evolves_pass`).

What holds along every pass and every change of the nodes holds along updates and runs
(`Scene.Cumulative`).

The walk is bounded by the number of slots when it starts.  Observers may add slots on the way, but
nodes with news stay where they were, so the depth of a node in the first scene pays for the levels
that are left.
-/

namespace Freehand

open Scene

variable {R ω : Type}

namespace Scene

variable {s s' s₀ : Scene R} {id j c : NodeId}

/-- The nodes `j`, `id` and all between them have news. -/
inductive Open (s : Scene R) (id : NodeId) : NodeId → Prop where
  | top (h : s.News id) : Open s id id
  | child {p c : NodeId} (hp : Open s id p) (hc : s.parent? c = some p) (h : s.News c) :
      Open s id c

namespace Open

theorem news (h : s.Open id j) : s.News j := by
  cases h with
  | top h => exact h
  | child _ _ h => exact h

theorem news_top (h : s.Open id j) : s.News id := by
  induction h with
  | top h => exact h
  | child _ _ _ ih => exact ih

theorem above (h : s.Open id j) : s.Above id j := by
  induction h with
  | top => exact .refl s id
  | child _ hc _ ih => exact ih.trans (.of_parent? hc (.refl s _))

/-- An open node below `id` is below an open child. -/
theorem cases_head (h : s.Open id j) :
    j = id ∨ ∃ c, s.parent? c = some id ∧ s.Open c j := by
  induction h with
  | top => exact .inl rfl
  | child _ hc hnews ih =>
    right
    rcases ih with rfl | ⟨d, hd, hopen⟩
    · exact ⟨_, hc, .top hnews⟩
    · exact ⟨d, hd, .child hopen hc hnews⟩

/-- What still has news after a change is as open as before. -/
theorem of_quiets (h : s.Open id j) (hq : Quiets s s') (hnews : s'.News j) : s'.Open id j := by
  induction h with
  | top => exact .top hnews
  | child hp hc _ ih =>
    refine .child (ih (hq.upward hnews hc hp.news)) ?_ hnews
    rw [(hq.fades hnews).2, hc]

end Open

/-- The nodes that a pass visits are open after it. -/
theorem Tree.open_of_visit [Scalar R] (h : s.Tree) {i : Inherited R}
    (hvisit : s.Visit s.root .atRoot j i) : s.updatePass.Open s.root j := by
  induction hvisit with
  | top hn hflags => exact .top (h.news_updatePass_iff.2 (.inr ⟨_, .top hn hflags⟩))
  | child hp hm hn hparent hflags ih =>
    refine .child ih ?_ (h.news_updatePass_iff.2 (.inr ⟨_, .child hp hm hn hparent hflags⟩))
    rw [parent?_eq_of_agree (agree_updatePass (fun _ _ _ _ _ _ => rfl) s), parent?_of_node? hn,
      hparent]

/-! ## Clearing the news of a node -/

/-- The scene in which there is nothing to tell about a node. -/
def hush (s : Scene R) (id : NodeId) : Scene R :=
  s.modify id fun n => { n with changed := ∅ }

theorem agree_hush {β : Type} {part : Node R → β}
    (h : ∀ (n : Node R) (changed : Flags), part { n with changed } = part n) (s : Scene R)
    (id : NodeId) : Agree part s (s.hush id) :=
  .modify fun n _ => h n ∅

/-- Hushing a node takes its own news away. -/
theorem news_hush_iff : (s.hush id).News j ↔ j ≠ id ∧ s.News j := by
  simp only [News, hush]
  rw [node?_modify]
  split
  next hj =>
    cases hn : s.node? j with
    | none => simp [hj]
    | some n => simp [hj]
  next hj => simp [hj]

theorem parent?_hush (s : Scene R) (id j : NodeId) : (s.hush id).parent? j = s.parent? j :=
  parent?_eq_of_agree (agree_hush (fun _ _ => rfl) s id) j

theorem fades_hush (s : Scene R) (id : NodeId) : Fades s (s.hush id) := fun _ hj =>
  ⟨(news_hush_iff.1 hj).2, parent?_hush s id _⟩

theorem Sound.hush (h : s.Sound) (id : NodeId) : (s.hush id).Sound where
  valid := h.valid.modify id _
  tree := h.tree.of_agree rfl (agree_hush (fun _ _ => rfl) s id)
  linked := h.linked.of_agree (agree_hush (fun _ _ => rfl) s id) fun c p hp => by
    rwa [parent?_hush] at hp
  rising := h.rising.of_agree (agree_hush (fun _ _ => rfl) s id)

theorem Grounded.open_hush (h : s.Grounded) (hc : s.parent? c = some id) (hopen : s.Open c j) :
    (s.hush id).Open c j := by
  have hne : ∀ k, s.Above c k → k ≠ id := fun k hk heq => h.not_above_parent hc (heq ▸ hk)
  induction hopen with
  | top hnews => exact .top (news_hush_iff.2 ⟨hne c (.refl s c), hnews⟩)
  | child hp hparent hnews ih =>
    refine .child ih (by rw [parent?_hush, hparent]) (news_hush_iff.2 ⟨hne _ ?_, hnews⟩)
    exact hp.above.trans (.of_parent? hparent (.refl s _))

end Scene

/-! ## Relations that add up -/

/-- A relation between scenes that adds up over changes and looks at the nodes only. -/
structure Scene.Cumulative (rel : Scene R → Scene R → Prop) : Prop where
  refl : ∀ s, rel s s
  trans : ∀ {s s' s''}, rel s s' → rel s' s'' → rel s s''
  of_nodes_eq : ∀ {s s'}, s'.nodes = s.nodes → s'.root = s.root → rel s s'

namespace Scene.Cumulative

open Stage

variable {rel : Scene R → Scene R → Prop} {l : Listener R ω}

theorem foldl (h : Cumulative rel) {α : Type} {f : Stage R ω → α → Stage R ω}
    (hf : ∀ st a, rel st.scene (f st a).scene) (as : List α) (st : Stage R ω) :
    rel st.scene (as.foldl f st).scene :=
  as.foldlRecOn (motive := fun st' => rel st.scene st'.scene) f (h.refl st.scene)
    fun st' hst a _ => h.trans hst (hf st' a)

theorem dispatch (h : Cumulative rel) {tell : ObserverId → Stage R ω → Stage R ω}
    (htell : ∀ o st, rel st.scene (tell o st).scene) (st : Stage R ω) :
    rel st.scene (st.dispatch tell).scene :=
  h.foldl (fun st o => htell o st) st.observers { st with observers := [] }

variable [Scalar R]

/-- What marking, clearing news, recomputing and observers do, a pass does. -/
theorem passes (h : Cumulative rel) (htouch : ∀ s id flags, rel s (s.touch id flags))
    (hhush : ∀ s id, rel s (s.hush id)) (hupdate : ∀ s, rel s s.updatePass)
    (hmodified : ∀ o id flags st, rel st.scene (l.modified o id flags st).scene)
    (hcompleted : ∀ o st, rel st.scene (l.completed o st).scene) (st : Stage R ω) :
    rel st.scene (pass l st).scene := by
  have hnotify : ∀ (st : Stage R ω) id flags, rel st.scene (notify l st id flags).scene := by
    intro st id flags
    rw [notify]
    split
    · exact h.refl st.scene
    next n _ =>
      have htouches : rel st.scene
          (n.subscribers.foldl (fun s k => s.touch k.node k.role.stale) st.scene) :=
        n.subscribers.foldlRecOn _ (h.refl st.scene) fun s hs k _ =>
          h.trans hs (htouch s k.node k.role.stale)
      exact h.trans htouches (h.dispatch (fun o st => hmodified o id flags st)
        { st with scene := n.subscribers.foldl (fun s k => s.touch k.node k.role.stale) st.scene })
  have hwalk : ∀ (levels : Nat) (id : NodeId) (st : Stage R ω),
      rel st.scene (notifySubtree l levels id st).scene := by
    intro levels
    induction levels with
    | zero => exact fun _ st => h.refl st.scene
    | succ levels ih =>
      intro id st
      rw [notifySubtree]
      split
      · exact h.refl st.scene
      next n _ =>
        dsimp only
        split
        · exact h.refl st.scene
        · have hchildren := h.foldl (fun st c => ih c st) n.children
            { st with scene := st.scene.hush id }
          exact h.trans (h.trans (hhush st.scene id) hchildren) (hnotify _ id n.changed)
  have htold := hwalk st.scene.updatePass.nodes.slots.size st.scene.updatePass.root
    { st with scene := st.scene.updatePass }
  exact h.trans (h.trans (h.trans (hupdate st.scene) htold) (h.dispatch hcompleted _))
    (h.of_nodes_eq rfl rfl)

/-- What every pass does, an update does. -/
theorem settleWithin (h : Cumulative rel) (hpass : ∀ st, rel st.scene (pass l st).scene) :
    ∀ (limit : Nat) (st : Stage R ω), rel st.scene (settleWithin l limit st).2.scene := by
  intro limit st
  fun_induction Stage.settleWithin l limit st with
  | case1 st hdirty => exact h.refl st.scene
  | case2 st hdirty limit ih => exact h.trans (hpass st) ih
  | case3 limit st hclean => exact h.refl st.scene

/-- What every pass does, an update adds up. -/
theorem settle (h : Cumulative rel) (hpass : ∀ st, rel st.scene (pass l st).scene)
    (st : Stage R ω) : rel st.scene (settle l st).2.scene := by
  refine h.trans (h.settleWithin hpass st.scene.maxPasses st) ?_
  simp only [Stage.settle]
  split
  · exact h.of_nodes_eq rfl rfl
  · exact h.of_nodes_eq rfl rfl

theorem runPending (h : Cumulative rel) (hpass : ∀ st, rel st.scene (pass l st).scene)
    (st : Stage R ω) : rel st.scene (runPending l st).2.scene := by
  rw [Stage.runPending]
  split
  · exact h.refl st.scene
  · exact h.settle hpass st

end Scene.Cumulative

theorem Scene.cumulative_evolves : Cumulative (Evolves (R := R)) :=
  ⟨.refl, .trans, evolves_of_nodes_eq⟩

/-! ## Orderly listeners -/

/-- What observers do to a scene is no more than evolving it. -/
structure Listener.Orderly (l : Listener R ω) : Prop where
  modified : ∀ o id flags st, Evolves st.scene (l.modified o id flags st).scene
  completed : ∀ o st, Evolves st.scene (l.completed o st).scene

namespace Listener.Orderly

open Stage

variable {l : Listener R ω} {id : NodeId}

theorem evolves_touches (ks : List Link) (s : Scene R) :
    Evolves s (ks.foldl (fun s k => s.touch k.node k.role.stale) s) :=
  ks.foldlRecOn _ (.refl s) fun t ht k _ => ht.trans (evolves_touch t k.node k.role.stale)

/-- Telling a node marks its subscribers before the observers are told. -/
theorem evolves_notify (hl : l.Orderly) (st : Stage R ω) (id : NodeId) (flags : Flags) :
    Evolves st.scene (notify l st id flags).scene := by
  rw [notify]
  split
  · exact .refl st.scene
  next n _ =>
    have htouch := evolves_touches n.subscribers st.scene
    exact htouch.trans (cumulative_evolves.dispatch (fun o st => hl.modified o id flags st)
      { st with scene := n.subscribers.foldl (fun s k => s.touch k.node k.role.stale) st.scene })

/-- What telling the subtrees of some nodes does.  Given that the first scene `s₀` of the walk pays
for the levels, it quiets, and leaves no open news below these nodes. -/
structure Tells (s₀ : Scene R) (levels : Nat) (ids : List NodeId) (s s' : Scene R) : Prop where
  slots : s.nodes.slots.size ≤ s'.nodes.slots.size
  sound : s'.nodes.Fits → s.Sound → s'.Sound
  told : s'.nodes.Fits → s.Sound → s₀.Tree → Fades s₀ s →
    (∀ id ∈ ids, s.News id → s₀.nodes.slots.size ≤ levels + s₀.depth id) →
    Quiets s s' ∧ ∀ id ∈ ids, ∀ j, s.Open id j → ¬s'.News j

namespace Tells

variable {s₀ s s' s'' : Scene R} {levels : Nat} {ids : List NodeId}

theorem nil (s₀ : Scene R) (levels : Nat) (s : Scene R) : Tells s₀ levels [] s s where
  slots := Nat.le_refl _
  sound _ hs := hs
  told _ _ _ _ _ := ⟨.refl s, nofun⟩

/-- Telling one subtree and then the others is telling all of them. -/
theorem cons (h : Tells s₀ levels [id] s s') (h' : Tells s₀ levels ids s' s'') :
    Tells s₀ levels (id :: ids) s s'' where
  slots := Nat.le_trans h.slots h'.slots
  sound hfits hs := h'.sound hfits (h.sound (Nat.le_trans h'.slots hfits) hs)
  told hfits hs h₀ hfades hlevels := by
    have hfits' : s'.nodes.Fits := Nat.le_trans h'.slots hfits
    obtain ⟨hquiets, hclear⟩ := h.told hfits' hs h₀ hfades fun d hd =>
      hlevels d (by rw [List.mem_singleton.1 hd]; exact List.mem_cons_self)
    obtain ⟨hquiets', hclear'⟩ := h'.told hfits (h.sound hfits' hs) h₀
      (hfades.trans hquiets.fades) fun d hd hnews =>
        hlevels d (List.mem_cons_of_mem id hd) (hquiets.fades hnews).1
    refine ⟨hquiets.trans hquiets', fun d hd j hopen hnews => ?_⟩
    have hnews' := (hquiets'.fades hnews).1
    rcases List.mem_cons.1 hd with rfl | hd
    · exact hclear d List.mem_cons_self j hopen hnews'
    · exact hclear' d hd j (hopen.of_quiets hquiets hnews') hnews

theorem foldl {f : Stage R ω → NodeId → Stage R ω}
    (hf : ∀ c st, Tells s₀ levels [c] st.scene (f st c).scene) :
    ∀ (ids : List NodeId) (st : Stage R ω),
      Tells s₀ levels ids st.scene (ids.foldl f st).scene := by
  intro ids
  induction ids with
  | nil => exact fun st => .nil s₀ levels st.scene
  | cons c ids ih => exact fun st => (hf c st).cons (ih (f st c))

/-- Where nothing is new, there is nothing to tell. -/
theorem of_quiet (h : ¬s.News id) : Tells s₀ levels [id] s s where
  slots := Nat.le_refl _
  sound _ hs := hs
  told _ _ _ _ _ := by
    refine ⟨.refl s, fun d hd j hopen => ?_⟩
    rw [List.mem_singleton.1 hd] at hopen
    exact absurd hopen.news_top h

/-- A node is told after its children, with its own news cleared before them. -/
theorem node {n : Node R} (hn : s.node? id = some n) (hnews : s.News id)
    (h : Tells s₀ levels n.children (s.hush id) s') (h' : Evolves s' s'') :
    Tells s₀ (levels + 1) [id] s s'' := by
  have hsize : (s.hush id).nodes.slots.size = s.nodes.slots.size := Arena.size_slots_modify _ _ _
  refine ⟨?_, fun hfits hs => ?_, fun hfits hs h₀ hfades hlevels => ?_⟩
  · rw [← hsize]
    exact Nat.le_trans h.slots h'.slots
  · exact h'.sound hfits (h.sound (h'.fits hfits) (hs.hush id))
  · have hfits' := h'.fits hfits
    have hchildren : ∀ c ∈ n.children, s.parent? c = some id := fun c hc =>
      (hs.tree.mem_children_iff hn).1 hc
    have hroom : ∀ c ∈ n.children, (s.hush id).News c →
        s₀.nodes.slots.size ≤ levels + s₀.depth c := by
      intro c hc hnewsc
      obtain ⟨-, hnewsc⟩ := news_hush_iff.1 hnewsc
      have hid := hlevels id List.mem_cons_self hnews
      have hdepth := h₀.grounded.depth_of_parent? ((hfades hnewsc).2.symm.trans (hchildren c hc))
      omega
    obtain ⟨hquiets, hclear⟩ := h.told hfits' (hs.hush id) h₀
      (hfades.trans (fades_hush s id)) hroom
    have hquiets' := hquiets.trans (h'.quiets hfits (h.sound hfits' (hs.hush id)))
    have hcleared : ∀ j, s.Open id j → ¬s''.News j := by
      intro j hopen hnewsj
      have hnewsj' := (h'.quiets hfits (h.sound hfits' (hs.hush id))).fades hnewsj
      rcases hopen.cases_head with rfl | ⟨c, hc, hopenc⟩
      · exact (news_hush_iff.1 (hquiets.fades hnewsj'.1).1).1 rfl
      · exact hclear c ((hs.tree.mem_children_iff hn).2 hc) j
          (hs.tree.grounded.open_hush hc hopenc) hnewsj'.1
    refine ⟨⟨?_, fun j p hnewsj hp hnewsp => ?_⟩, fun d hd j => ?_⟩
    · exact (fades_hush s id).trans hquiets'.fades
    · have hnewsj' := (news_hush_iff.1 (hquiets'.fades hnewsj).1).2
      have hpid : p ≠ id := by
        intro heq
        rw [heq] at hp
        exact hcleared j (.child (.top hnews) hp hnewsj') hnewsj
      exact hquiets'.upward hnewsj ((parent?_hush s id j).trans hp)
        (news_hush_iff.2 ⟨hpid, hnewsp⟩)
    · rw [List.mem_singleton.1 hd]
      exact hcleared j

end Tells

/-- The walk over a subtree tells what is open there. -/
theorem tells_notifySubtree (hl : l.Orderly) (s₀ : Scene R) :
    ∀ (levels : Nat) (id : NodeId) (st : Stage R ω),
      Tells s₀ levels [id] st.scene (notifySubtree l levels id st).scene := by
  intro levels
  induction levels with
  | zero =>
    intro id st
    refine ⟨Nat.le_refl _, fun _ hs => hs, fun _ _ h₀ hfades hlevels => ⟨.refl _, ?_⟩⟩
    intro d hd j hopen
    have hnews := hopen.news_top
    obtain ⟨n, hn, -⟩ := (hfades hnews).1
    have := hlevels d hd hnews
    have := h₀.depth_lt hn
    omega
  | succ levels ih =>
    intro id st
    rw [notifySubtree]
    cases hn : st.scene.node? id with
    | none =>
      refine .of_quiet fun hnews => ?_
      obtain ⟨n, hn', -⟩ := hnews
      rw [hn] at hn'
      cases hn'
    | some n =>
      dsimp only
      split
      next hempty =>
        refine .of_quiet fun hnews => ?_
        obtain ⟨n', hn', hchanged⟩ := hnews
        rw [hn] at hn'
        cases hn'
        exact hchanged (Flags.isEmpty_iff.1 hempty)
      next hchanged =>
        have hnews : st.scene.News id := ⟨n, hn, fun h => hchanged (Flags.isEmpty_iff.2 h)⟩
        have hchildren := Tells.foldl (fun c st => ih c st) n.children
          { st with scene := st.scene.hush id }
        exact .node hn hnews hchildren (hl.evolves_notify _ id n.changed)

/-! ## Updates -/

variable [Scalar R]

/-- A pass and the walk after it: the pass leaves news on the visited nodes, and the walk tells all
of these. -/
theorem evolves_notifyPass (hl : l.Orderly) (st : Stage R ω) :
    Evolves st.scene (notifyPass l { st with scene := st.scene.updatePass }).scene := by
  have htells := tells_notifySubtree hl st.scene.updatePass
    st.scene.updatePass.nodes.slots.size st.scene.updatePass.root
    { st with scene := st.scene.updatePass }
  refine ⟨?_, fun hfits hs => htells.sound hfits hs.updatePass, fun hfits hs => ?_⟩
  · rw [← (stays_updatePass st.scene).slots]
    exact htells.slots
  · have hparent : ∀ j, st.scene.updatePass.parent? j = st.scene.parent? j :=
      parent?_eq_of_agree (agree_updatePass (fun _ _ _ _ _ _ => rfl) st.scene)
    obtain ⟨hquiets, hclear⟩ := htells.told hfits hs.updatePass hs.updatePass.tree
      (Quiets.refl _).fades fun id _ _ => Nat.le_add_right _ _
    refine ⟨fun j hj => ?_, fun j p hj hp hnews => ?_⟩
    · obtain ⟨hnews, hsame⟩ := hquiets.fades hj
      refine ⟨?_, hsame.trans (hparent j)⟩
      rcases hs.tree.news_updatePass_iff.1 hnews with hold | ⟨i, hvisit⟩
      · exact hold
      · have hopen := hs.tree.open_of_visit hvisit
        rw [← (stays_updatePass st.scene).root] at hopen
        exact absurd hj (hclear _ List.mem_cons_self j hopen)
    · exact hquiets.upward hj ((hparent j).trans hp) (hs.tree.news_updatePass_iff.2 (.inl hnews))

theorem evolves_pass (hl : l.Orderly) (st : Stage R ω) :
    Evolves st.scene (pass l st).scene :=
  ((hl.evolves_notifyPass st).trans (cumulative_evolves.dispatch hl.completed _)).trans
    (evolves_of_nodes_eq rfl rfl)

end Listener.Orderly

end Freehand
