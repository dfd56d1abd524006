import Freehand.Proofs.Scene.Dependence

/-!
# Boxes in settled scenes

While observers are told what changed they may change the scene, and even let it settle again.  What
shows a changed node is marked only when the walk comes to that node.  Until then it may have an old
box without any mark: it *lags* behind the news (`Scene.Lags`).

* In a *boxed* scene the nodes that reach no marks and do not lag have the right box
  (`Scene.Boxed`).  News that a walk has taken and not passed on yet are *owed*.
* Changes and passes keep a scene boxed, whatever is owed (`Boxed.of_edited`, `Boxed.updatePass`).
  The news of a node are owed from when they are taken until what shows the node is marked
  (`Boxed.of_marked`).
* So walks keep a scene boxed with all that observers do meanwhile, and between updates nothing is
  owed: in a scene that has settled every box is right (`Reachable.box_eq`).

Nothing is asked of observers or of scalars for this.
-/

namespace Freehand

open Scene

namespace Scene

variable {R : Type} {s s' s'' : Scene R} {owed owed' : NodeId → Prop} {id j o p : NodeId} {r : Role}
  {n m : Node R}

theorem held?_eq_of_agree (h : Agree (fun n => n.held r) s s') (o : NodeId) :
    s'.held? o r = s.held? o r := by
  cases hn : s.node? o with
  | none =>
    have hn' := h o
    rw [hn, Option.map_none, Option.map_eq_none_iff] at hn'
    rw [held?, held?, hn, hn']
  | some n =>
    obtain ⟨n', hn', heq⟩ := h.node? hn
    rw [held?_of_node? hn, held?_of_node? hn', heq]

/-! ## Boxed scenes -/

/-- The node reaches a clone of a node whose news are still to be told, or are owed. -/
def Lags (s : Scene R) (owed : NodeId → Prop) (id : NodeId) : Prop :=
  ∃ u v, s.Reaches id u ∧ s.held? u .cloneSource = some v ∧ (s.News v ∨ owed v)

variable [Scalar R]

/-- What reaches no marks and does not lag has the right box. -/
def Boxed (s : Scene R) (owed : NodeId → Prop) : Prop :=
  ∀ ⦃id n⦄, s.node? id = some n → s.Clean id → ¬s.Lags owed id → n.box = s.computeBox id

namespace Boxed

/-- A change that marks what it changes keeps a scene boxed, if it loses no news. -/
theorem of_edited (h : s.Boxed owed) (hs' : s'.Sound) (hedit : Edited s s')
    (hnews : ∀ ⦃j m⦄, s'.node? j = some m → s.News j ∨ owed j → s'.News j ∨ owed' j) :
    s'.Boxed owed' := by
  intro id n' hn' hclean hprompt
  obtain ⟨n, hn, -, -, hcaches⟩ := hedit.node? hn' (hclean .refl hn')
  have hbox : n.box = s.computeBox id := by
    refine h hn (hedit.clean hs' hn' hclean) ?_
    rintro ⟨u, v, hu, hheld, hv⟩
    have hu' : s'.Reaches id u := (hedit.sameContent hs' hn' hclean).reaches hu
    obtain ⟨k', hk'⟩ := hs'.node?_of_reaches hn' hu'
    obtain ⟨k, hk, -, hraw, -⟩ := hedit.node? hk' (hclean hu' hk')
    have hheld' : s'.held? u .cloneSource = some v := by
      rw [held?_of_node? hk] at hheld
      rw [held?_of_node? hk', ← hheld]
      exact congrArg (fun raw => raw.1.source?) hraw
    obtain ⟨m, hm⟩ := hs'.node?_of_leads (hs'.tree.leads_iff.2 (.inr hheld'))
    exact hprompt ⟨u, v, hu', hheld', hnews hm hv⟩
  rw [← hedit.computeBox_eq hs' hn' hclean, ← hbox]
  exact (congrArg (fun caches => caches.2.1) hcaches :)

/-- A pass computes the boxes of the nodes that it visits.  The others keep theirs, and what they
reach is not visited, since the clones of visited nodes lag after the pass. -/
theorem updatePass (h : s.Boxed owed) (hs : s.Sound) : s.updatePass.Boxed owed := by
  intro id n hn _ hprompt
  have hraw : Agree Node.raw s s.updatePass := agree_updatePass (fun _ _ _ _ _ _ => rfl) s
  rcases hs.tree.node?_updatePass_cases hn with ⟨i, m, -, -, rfl⟩ | ⟨hvisit, hn₀⟩
  · rfl
  · have hprompt : ¬∃ u v, s.Reaches id u ∧ s.held? u .cloneSource = some v ∧
        ((s.News v ∨ ∃ i, s.Visit s.root .atRoot v i) ∨ owed v) := by
      rintro ⟨u, v, hu, hheld, hv⟩
      refine hprompt ⟨u, v, (hraw.symm.sameContent id).reaches hu, ?_,
        hv.imp_left hs.tree.news_updatePass_iff.2⟩
      exact (held?_eq_of_agree (agree_updatePass (fun _ _ _ _ _ _ => rfl) s) u).trans hheld
    have hskip : ∀ {d}, s.Reaches id d → ¬∃ i, s.Visit s.root .atRoot d i := by
      intro d hd
      induction hd with
      | refl =>
        rintro ⟨i, hi⟩
        exact hvisit i hi
      | @tail u v hu hleads ih =>
        rintro ⟨i, hi⟩
        rcases hs.tree.leads_iff.1 hleads with hparent | hsource
        · exact ih (hi.parent (hs.tree.ne_root_of_parent? hparent) hparent)
        · exact hprompt ⟨u, v, hu, hsource, .inl (.inr ⟨i, hi⟩)⟩
    have hsame : ∀ {d}, s.Reaches id d → s.updatePass.node? d = s.node? d := fun hd =>
      hs.tree.node?_updatePass_of_not_visit fun i hi => hskip hd ⟨i, hi⟩
    have hclean : s.Clean id := by
      intro d m hd hm
      by_contra hstale
      exact hskip hd (hs.exists_visit hm hstale)
    rw [h hn₀ hclean fun ⟨u, v, hu, hheld, hv⟩ => hprompt ⟨u, v, hu, hheld, hv.imp_left .inl⟩]
    refine (computeBox_congr (hraw.sameContent id) ?_ fun k hk c hc => ?_).symm
    · rw [hsame .refl]
    · rw [hsame (.single ⟨k, hk, .inl hc⟩)]

/-- The news of a node are settled once all that shows the node is marked. -/
theorem of_marked (h : s.Boxed fun v => owed v ∨ v = id)
    (hmarked : ∀ u m, s.held? u .cloneSource = some id → s.node? u = some m → m.stale ≠ ∅) :
    s.Boxed owed := by
  intro j n hn hclean hprompt
  refine h hn hclean ?_
  rintro ⟨u, v, hu, hheld, hv⟩
  rcases or_assoc.2 hv with hv | rfl
  · exact hprompt ⟨u, v, hu, hheld, hv⟩
  · obtain ⟨m, hm, -⟩ := Option.bind_eq_some_iff.1 hheld
    exact hmarked u m hheld hm (hclean hu hm)

end Boxed

theorem boxed_new (maxPasses : Nat) (owed : NodeId → Prop) :
    (new maxPasses : Scene R).Boxed owed := by
  intro id n hn _ _
  rw [computeBox, hn, (eq_of_node?_new hn).2]
  rfl

/-! ## Changes -/

/-- No change takes the news of a node that stays. -/
theorem Change.news (h : Change s s') (hs : s.Sound) (hfits : s'.nodes.Fits)
    (hm : s'.node? j = some m) (hnews : s.News j) : s'.News j := by
  obtain ⟨n, hn, hchanged⟩ := hnews
  suffices heq : m.changed = n.changed from ⟨m, hm, heq ▸ hchanged⟩
  cases h with
  | revised hrev => exact congrArg Prod.snd (hrev.agree_news.part_eq hn hm)
  | @inserted p l kind hp hgroup hsource =>
    have hfits' := (stays_insertChild s p kind).fits hfits
    have hmarks : Agree Node.changed (s.plant p kind) (s.insertChild p kind).2 :=
      agree_insertChild (fun _ _ => rfl) s p kind
    have heq := hmarks.part_eq (node?_plant_of_node? hs.valid hfits' hn) hm
    exact heq
  | @removed s' id freed hrem =>
    obtain ⟨hup, -⟩ := node?_of_remove hs.tree hrem hm
    obtain ⟨m', hm', hlasting⟩ := node?_remove_of_not_above hs.tree hrem hup hn
    rw [hm] at hm'
    cases hm'
    simp only [Node.lasting, Prod.mk.injEq] at hlasting
    exact hlasting.2.2.1

theorem Boxed.of_change (h : s.Boxed owed) (hs : s.Sound) (hfits : s'.nodes.Fits)
    (hchange : Change s s') : s'.Boxed owed :=
  h.of_edited (hchange.sound hs hfits) (hchange.edited hs hfits) fun _ _ hm hv =>
    hv.imp_left (hchange.news hs hfits hm)

/-- A change that leaves caches, marks and all that was set alone. -/
theorem Boxed.of_agree (h : s.Boxed owed) (hs' : s'.Sound)
    (hagree : Agree (fun n => (n.raw, n.stale, n.caches)) s s')
    (hnews : ∀ ⦃j⦄, s.News j ∨ owed j → s'.News j ∨ owed' j) : s'.Boxed owed' :=
  h.of_edited hs' (Wears.of_agree hagree).edited fun _ _ _ hv => hnews hv

/-- What keeps a scene boxed, whatever is owed. -/
structure Mends (s s' : Scene R) : Prop where
  slots : s.nodes.slots.size ≤ s'.nodes.slots.size
  sound : s'.nodes.Fits → s.Sound → s'.Sound
  boxed : s'.nodes.Fits → s.Sound → ∀ owed, s.Boxed owed → s'.Boxed owed

namespace Mends

theorem fits (h : Mends s s') (hfits : s'.nodes.Fits) : s.nodes.Fits :=
  Nat.le_trans h.slots hfits

theorem trans (h : Mends s s') (h' : Mends s' s'') : Mends s s'' where
  slots := Nat.le_trans h.slots h'.slots
  sound hfits hs := h'.sound hfits (h.sound (h'.fits hfits) hs)
  boxed hfits hs owed hb :=
    h'.boxed hfits (h.sound (h'.fits hfits) hs) owed (h.boxed (h'.fits hfits) hs owed hb)

theorem of_evolves (h : Evolves s s')
    (hboxed : s'.nodes.Fits → s.Sound → ∀ owed, s.Boxed owed → s'.Boxed owed) : Mends s s' :=
  ⟨h.slots, h.sound, hboxed⟩

theorem of_nodes_eq (hnodes : s'.nodes = s.nodes) (hroot : s'.root = s.root) : Mends s s' := by
  have hnode : ∀ id, s'.node? id = s.node? id := fun id => by rw [node?, node?, hnodes]
  refine .of_evolves (evolves_of_nodes_eq hnodes hroot) fun _ hs owed hb => ?_
  refine hb.of_agree (hs.of_nodes_eq hnodes hroot) (.of_node?_eq hnode) fun j hv => hv.imp_left ?_
  rintro ⟨n, hn, hchanged⟩
  exact ⟨n, (hnode j).trans hn, hchanged⟩

theorem refl (s : Scene R) : Mends s s :=
  .of_nodes_eq rfl rfl

theorem revised (h : Revised s s') : Mends s s' :=
  .of_evolves h.evolves fun hfits hs _ hb => hb.of_change hs hfits (.revised h)

theorem removed {freed : List NodeId} (h : s.remove id = .ok (s', freed)) : Mends s s' :=
  .of_evolves (evolves_remove h) fun hfits hs _ hb => hb.of_change hs hfits (.removed h)

theorem added {kind : Kind R} {freed : List NodeId} (h : Added s p kind s' freed) : Mends s s' :=
  .of_evolves h.evolves fun hfits hs owed hb =>
    h.changes (P := fun s => s.Boxed owed)
      (fun hs hfits hchange hb => hb.of_change hs hfits hchange) hs hfits hb

end Mends

theorem cumulative_mends : Cumulative (Mends (R := R)) :=
  ⟨.refl, .trans, .of_nodes_eq⟩

theorem mends_touch (s : Scene R) (id : NodeId) (flags : Flags) : Mends s (s.touch id flags) := by
  refine .of_evolves (evolves_touch s id flags) fun _ hs _ hb => ?_
  refine hb.of_edited (hs.touch id flags) (wears_touch s id flags).edited fun j m hm hv =>
    hv.imp_left ?_
  rintro ⟨n, hn, hchanged⟩
  refine ⟨m, hm, ?_⟩
  have heq := (agree_touch (fun _ _ => rfl) s id flags : Agree Node.changed s _).part_eq hn hm
  exact heq ▸ hchanged

theorem mends_touches (ks : List Link) (s : Scene R) :
    Mends s (ks.foldl (fun s k => s.touch k.node k.role.stale) s) :=
  ks.foldlRecOn _ (.refl s) fun t ht k _ => ht.trans (mends_touch t k.node k.role.stale)

end Scene

/-! ## Updates -/

variable {R ω : Type} [Scalar R]

/-- What observers do keeps a scene boxed. -/
structure Listener.Mends (l : Listener R ω) : Prop where
  modified : ∀ o id flags st, Scene.Mends st.scene (l.modified o id flags st).scene
  completed : ∀ o st, Scene.Mends st.scene (l.completed o st).scene

namespace Listener.Mends

open Stage

variable {l : Listener R ω}

/-- Telling that a node changed settles what is owed for it. -/
theorem boxed_notify (hl : l.Mends) {owed : NodeId → Prop} (st : Stage R ω) (id : NodeId)
    (flags : Flags) (hfits : (notify l st id flags).scene.nodes.Fits) (hs : st.scene.Sound)
    (h : st.scene.Boxed fun v => owed v ∨ v = id) : (notify l st id flags).scene.Boxed owed := by
  rw [notify] at hfits ⊢
  cases hn : st.scene.node? id with
  | none =>
    refine h.of_marked fun u m hheld _ => ?_
    obtain ⟨k, hk⟩ := hs.node?_of_leads (hs.tree.leads_iff.2 (.inr hheld))
    rw [hn] at hk
    cases hk
  | some n =>
    rw [hn] at hfits
    dsimp only at hfits ⊢
    have htouches := mends_touches n.subscribers st.scene
    have htold := cumulative_mends.dispatch (fun o st => hl.modified o id flags st)
      { st with scene := n.subscribers.foldl (fun s k => s.touch k.node k.role.stale) st.scene }
    have hfits' := htold.fits hfits
    refine htold.boxed hfits (htouches.sound hfits' hs) owed ?_
    refine (htouches.boxed hfits' hs _ h).of_marked fun u m hheld hm => ?_
    obtain ⟨hspread, hmarked⟩ := Spreads.touches n.subscribers st.scene
    have hsource : st.scene.held? u .cloneSource = some id :=
      (held?_eq_of_agree (hspread.keeps.map fun part => part.1.1.source?) u).symm.trans hheld
    obtain ⟨k, hk, -⟩ := Option.bind_eq_some_iff.1 hsource
    have hmarks : Role.cloneSource.stale ⊆ m.stale := hmarked ⟨u, .cloneSource⟩
      ((hs.linked.mem_subscribers hn u .cloneSource).2 ⟨⟨k, hk⟩, hsource⟩) m hm
    exact Flags.ne_empty_of_subset hmarks (by decide)

theorem mends_notify (hl : l.Mends) (st : Stage R ω) (id : NodeId) (flags : Flags) :
    Scene.Mends st.scene (notify l st id flags).scene := by
  rw [notify]
  split
  · exact .refl st.scene
  next n _ =>
    exact (mends_touches n.subscribers st.scene).trans
      (cumulative_mends.dispatch (fun o st => hl.modified o id flags st)
        { st with scene := n.subscribers.foldl (fun s k => s.touch k.node k.role.stale) st.scene })

/-- The walk over a subtree passes on all the news that it takes. -/
theorem mends_notifySubtree (hl : l.Mends) :
    ∀ (levels : Nat) (id : NodeId) (st : Stage R ω),
      Scene.Mends st.scene (notifySubtree l levels id st).scene := by
  intro levels
  induction levels with
  | zero => exact fun _ st => .refl st.scene
  | succ levels ih =>
    intro id st
    rw [notifySubtree]
    cases hn : st.scene.node? id with
    | none => exact .refl st.scene
    | some n =>
      dsimp only
      split
      · exact .refl st.scene
      · have hchildren := cumulative_mends.foldl (fun st c => ih c st) n.children
          { st with scene := st.scene.hush id }
        have hnotify := hl.mends_notify
          (n.children.foldl (fun st c => notifySubtree l levels c st)
            { st with scene := st.scene.hush id }) id n.changed
        refine ⟨?_, fun hfits hs => ?_, fun hfits hs owed hb => ?_⟩
        · have hsize : st.scene.nodes.slots.size = (st.scene.hush id).nodes.slots.size :=
            (Arena.size_slots_modify _ _ _).symm
          rw [hsize]
          exact Nat.le_trans hchildren.slots hnotify.slots
        · exact hnotify.sound hfits (hchildren.sound (hnotify.fits hfits) (hs.hush id))
        · -- The news of `id` are owed until its subscribers are marked, after its children are
          -- told.
          have hhush : (st.scene.hush id).Boxed fun v => owed v ∨ v = id := by
            refine hb.of_agree (hs.hush id) (agree_hush (fun _ _ => rfl) _ id) fun j hv => ?_
            by_cases hj : j = id
            · exact .inr (.inr hj)
            · exact hv.imp (fun hnews => news_hush_iff.2 ⟨hj, hnews⟩) .inl
          exact hl.boxed_notify _ id n.changed hfits
            (hchildren.sound (hnotify.fits hfits) (hs.hush id))
            (hchildren.boxed (hnotify.fits hfits) (hs.hush id) _ hhush)

theorem mends_pass (hl : l.Mends) (st : Stage R ω) : Scene.Mends st.scene (pass l st).scene := by
  have hupdate : Scene.Mends st.scene st.scene.updatePass :=
    ⟨Nat.le_of_eq (stays_updatePass st.scene).slots.symm, fun _ hs => hs.updatePass,
      fun _ hs _ hb => hb.updatePass hs⟩
  have hwalk := hl.mends_notifySubtree st.scene.updatePass.nodes.slots.size
    st.scene.updatePass.root { st with scene := st.scene.updatePass }
  exact ((hupdate.trans hwalk).trans (cumulative_mends.dispatch hl.completed _)).trans
    (.of_nodes_eq rfl rfl)

theorem mends_run (hl : l.Mends) (commands : List (Command R ω)) (st : Stage R ω) :
    Scene.Mends st.scene (run l commands st).scene :=
  cumulative_mends.foldl (cumulative_mends.perform hl.mends_pass
    (fun he => .revised (revised_apply _ he)) .added .removed) commands st

end Listener.Mends

/-- Observers keep a scene boxed, whatever commands they give. -/
theorem Conduct.mends (c : Conduct R ω) : ∀ depth, (c.listener depth).Mends := by
  intro depth
  induction depth with
  | zero => exact ⟨fun _ _ _ st => .refl st.scene, fun _ st => .refl st.scene⟩
  | succ depth ih =>
    exact ⟨fun o id flags st => ih.mends_run (c.modified o id flags st) st,
      fun o st => ih.mends_run (c.completed o st) st⟩

/-- In a scene that has settled every box is the one that computing it anew gives. -/
theorem Scene.Reachable.box_eq {s : Scene R} (h : s.Reachable) (hfits : s.nodes.Fits)
    (hclean : s.isDirty = false) {id : NodeId} {n : Node R} (hn : s.node? id = some n) :
    n.box = s.computeBox id := by
  have hstale : s.Clean id := fun d m _ hm => (h.sound hfits).stale_of_not_isDirty hclean hm
  have hnews := h.not_news hfits
  obtain ⟨ω, c, depth, maxPasses, w, commands, rfl⟩ := h
  have hmends := (c.mends depth).mends_run commands (Stage.ofScene (new maxPasses) w)
  have hboxed := hmends.boxed hfits (sound_new maxPasses) (fun _ => False) (boxed_new maxPasses _)
  exact hboxed hn hstale fun ⟨u, v, _, _, hv⟩ => hv.elim (hnews v) fun hnone => hnone

end Freehand
