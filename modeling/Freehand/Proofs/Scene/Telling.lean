import Freehand.Proofs.Scene.Divergence
import Freehand.Proofs.Scene.Notices
import Freehand.Proofs.Scene.Survivors

/-!
# What a pass tells

Where observers only record, a pass over a scene without news tells of the nodes that it visited and
of no others, each once, children before their parents and siblings in their order
(`Heard.tellsOf`).

* The walk lists the subtree of the root and leaves out nodes without news.  It never looks below
  such a node, but after a pass there is no news below it (`Heard.told_eq`).
* A visited node is told of what was stale about it and of what its parent handed down, which can be
  read off the parent before and after the pass (`Heard.flags_below`).  A stale node is always
  visited, since the nodes above it are stale too.

What an update tells is what its passes tell, one after the other (`Stage.settle_tells`).
-/

namespace Freehand

open Scene

variable {R ω : Type}

namespace Scene

variable {s s' : Scene R} {id j p c a : NodeId} {n m : Node R}

/-! ## Nodes in the order of the walk -/

theorem Tree.subtree_sublist_of_mem (h : s.Tree) (hn : s.node? p = some m) (hc : c ∈ m.children) :
    (s.subtree c).Sublist (s.subtree p) := by
  rw [h.subtree_eq hn, List.flatMap]
  exact (List.sublist_flatten_of_mem (List.mem_map_of_mem hc)).trans (List.sublist_append_left _ _)

/-- What is above a node lists the subtree of the node, in the same order. -/
theorem Tree.subtree_sublist (h : s.Tree) : ∀ {id : NodeId}, s.Above a id →
    (s.subtree id).Sublist (s.subtree a) := by
  intro id
  induction id using h.grounded.induction with
  | _ id ih =>
    intro hup
    rcases hup.cases with rfl | ⟨p, hp, hup'⟩
    · exact .refl _
    · obtain ⟨m, hm, -⟩ := h.node?_of_parent? hp
      exact (h.subtree_sublist_of_mem hm ((h.mem_children_iff hm).2 hp)).trans (ih p hp hup')

/-- Children are listed in their order. -/
theorem Tree.children_sublist (h : s.Tree) (hn : s.node? p = some m) :
    m.children.Sublist (s.subtree p) := by
  have hlisted : ∀ cs : List NodeId, (∀ c ∈ cs, c ∈ m.children) →
      cs.Sublist (cs.flatMap s.subtree) := by
    intro cs
    induction cs with
    | nil => exact fun _ => .slnil
    | cons c cs ih =>
      intro hcs
      obtain ⟨k, hk, -⟩ := h.child hn (hcs c List.mem_cons_self)
      have hself : c ∈ s.subtree c := by
        rw [h.subtree_eq hk]
        exact List.mem_append_right _ List.mem_cons_self
      exact (List.singleton_sublist.2 hself).append
        (ih fun d hd => hcs d (List.mem_cons_of_mem c hd))
  rw [h.subtree_eq hn]
  exact (hlisted m.children fun c hc => hc).trans (List.sublist_append_left _ _)

/-- All nodes are below the root. -/
theorem Tree.above_root (h : s.Tree) : ∀ {id : NodeId} {n : Node R}, s.node? id = some n →
    s.Above s.root id := by
  intro id
  induction id using h.grounded.induction with
  | _ id ih =>
    intro n hn
    by_cases hid : id = s.root
    · exact hid ▸ .refl s id
    · obtain ⟨p, m, hp, hm, -⟩ := h.parent hn hid
      have hp' := (parent?_of_node? hn).trans hp
      exact .of_parent? hp' (ih p hp' hm)

/-- The order of a subtree depends on the children of nodes only. -/
theorem subtree_eq_of_agree (hslots : s'.nodes.slots.size = s.nodes.slots.size)
    (h : Agree Node.children s s') (id : NodeId) : s'.subtree id = s.subtree id := by
  have hlevels : ∀ (levels : Nat) (id : NodeId),
      s'.postorder levels id = s.postorder levels id := by
    intro levels
    induction levels with
    | zero => exact fun _ => rfl
    | succ levels ih =>
      intro id
      rw [postorder, postorder, funext ih]
      cases hn : s.node? id with
      | none =>
        have hnone := h id
        rw [hn, Option.map_none, Option.map_eq_none_iff] at hnone
        rw [hnone]
      | some n =>
        obtain ⟨n', hn', hchildren⟩ := h.node? hn
        rw [hn']
        dsimp only
        rw [hchildren]
  rw [subtree, subtree, hslots, hlevels]

/-! ## What the walk lists -/

/-- What is new about a node, if anything is. -/
def tiding? (s : Scene R) (id : NodeId) : Option (NodeId × Flags) :=
  (s.node? id).bind fun n => if n.changed.isEmpty then none else some (id, n.changed)

theorem tiding?_eq_some_iff {x : NodeId × Flags} : s.tiding? id = some x ↔
    ∃ n, s.node? id = some n ∧ n.changed ≠ ∅ ∧ x = (id, n.changed) := by
  rw [tiding?, Option.bind_eq_some_iff]
  refine exists_congr fun n => and_congr_right fun _ => ?_
  split
  next h => simp [Flags.isEmpty_iff.1 h]
  next h =>
    rw [Flags.isEmpty_iff] at h
    simp [h, eq_comm]

theorem tiding?_eq_none (h : ¬s.News id) : s.tiding? id = none := by
  by_contra hsome
  obtain ⟨x, hx⟩ := Option.ne_none_iff_exists'.1 hsome
  obtain ⟨n, hn, hchanged, -⟩ := tiding?_eq_some_iff.1 hx
  exact h ⟨n, hn, hchanged⟩

/-- Where news are on the parent of every node with news, there is none below a node without. -/
theorem Grounded.not_news_of_above (h : s.Grounded)
    (hupward : ∀ ⦃c p⦄, s.News c → s.parent? c = some p → s.News p) (hid : ¬s.News id) :
    ∀ {j : NodeId}, s.Above id j → ¬s.News j := by
  intro j
  induction j using h.induction with
  | _ j ih =>
    intro hj hnews
    rcases hj.cases with rfl | ⟨p, hp, hj'⟩
    · exact hid hnews
    · exact ih p hp hj' (hupward hnews hp)

/-- Then the walk misses no news. -/
theorem Tree.tidings_eq (h : s.Tree)
    (hupward : ∀ ⦃c p⦄, s.News c → s.parent? c = some p → s.News p) :
    ∀ (levels : Nat) (id : NodeId),
      s.tidings levels id = (s.postorder levels id).filterMap s.tiding? := by
  intro levels
  induction levels with
  | zero => exact fun _ => rfl
  | succ levels ih =>
    intro id
    cases hn : s.node? id with
    | none => rw [tidings, postorder, hn, List.filterMap_nil]
    | some n =>
      rw [tidings, hn]
      dsimp only
      split
      next hempty =>
        have hquiet : ¬s.News id := by
          rintro ⟨m, hm, hchanged⟩
          rw [hn] at hm
          cases hm
          exact hchanged (Flags.isEmpty_iff.1 hempty)
        rw [eq_comm, List.filterMap_eq_nil_iff]
        exact fun j hj => tiding?_eq_none (h.grounded.not_news_of_above hupward hquiet
          (above_of_mem_postorder (fun _ _ _ hk => (h.mem_children_iff hk).1) hj).1)
      next hchanged =>
        have hself : s.tiding? id = some (id, n.changed) :=
          tiding?_eq_some_iff.2 ⟨n, hn, fun he => hchanged (Flags.isEmpty_iff.2 he), rfl⟩
        rw [postorder, hn, funext ih, List.filterMap_append, List.filterMap_flatMap,
          List.filterMap_cons_some hself, List.filterMap_nil]

/-! ## What a pass tells -/

variable [Scalar R]

/-- Between the passes of an update whose observers only record, everything has been told. -/
structure Heard (s : Scene R) : Prop where
  sound : s.Sound
  fits : s.nodes.Fits
  quiet : ∀ j, ¬s.News j

/-- The nodes that a pass tells of are listed like the subtree of the root. -/
theorem Heard.told_eq (h : s.Heard) :
    s.told = (s.subtree s.root).filterMap s.updatePass.tiding? := by
  have hupward : ∀ ⦃c p⦄, s.updatePass.News c → s.updatePass.parent? c = some p →
      s.updatePass.News p := by
    intro c p hc hp
    rw [parent?_eq_of_agree (agree_updatePass (fun _ _ _ _ _ _ => rfl) s)] at hp
    rw [h.sound.tree.news_updatePass_iff] at hc ⊢
    obtain ⟨i, hi⟩ := hc.resolve_left (h.quiet c)
    exact .inr (hi.parent (h.sound.tree.ne_root_of_parent? hp) hp)
  rw [told, h.sound.updatePass.tree.tidings_eq hupward, ← subtree,
    subtree_eq_of_agree (stays_updatePass s).slots (agree_updatePass (fun _ _ _ _ _ _ => rfl) s),
    (stays_updatePass s).root]

/-- A pass tells of the nodes that it visits. -/
theorem Heard.mem_told_iff (h : s.Heard) {flags : Flags} : (id, flags) ∈ s.told ↔
    ∃ n i, s.node? id = some n ∧ s.Visit s.root .atRoot id i ∧ flags = n.stale ∪ i.flags := by
  have hchanged : ∀ {n}, s.node? id = some n → n.changed = ∅ := fun {n} hn => by
    by_contra hne
    exact h.quiet id ⟨n, hn, hne⟩
  rw [h.told_eq, List.mem_filterMap]
  constructor
  · rintro ⟨j, -, hj⟩
    obtain ⟨n', hn', hnews, heq⟩ := tiding?_eq_some_iff.1 hj
    obtain ⟨rfl, rfl⟩ := Prod.mk.inj heq
    obtain ⟨i, hi⟩ := (h.sound.tree.news_updatePass_iff.1 ⟨n', hn', hnews⟩).resolve_left
      (h.quiet id)
    obtain ⟨n, hn, -⟩ := hi.exists_node?
    rw [h.sound.tree.node?_updatePass_of_visit hi hn] at hn'
    cases hn'
    refine ⟨n, i, hn, hi, ?_⟩
    rw [Node.recomputed, hchanged hn, Flags.empty_union]
  · rintro ⟨n, i, hn, hi, rfl⟩
    obtain ⟨m, hm, hflags⟩ := hi.exists_node?
    rw [hn] at hm
    cases hm
    refine ⟨id, ?_, tiding?_eq_some_iff.2
      ⟨_, h.sound.tree.node?_updatePass_of_visit hi hn, ?_, ?_⟩⟩
    · refine h.sound.tree.mem_postorder hn ⟨n, hn⟩ (fun q c _ hq => ?_) (Nat.le_add_right _ _)
        (.refl s s.root) hi.above
      obtain ⟨k, hk, -⟩ := h.sound.tree.node?_of_parent? hq
      exact ⟨k, hk, (h.sound.tree.mem_children_iff hk).2 hq⟩
    · exact Flags.ne_empty_of_subset (Flags.subset_union_right _ _) hflags
    · rw [Node.recomputed, hchanged hn, Flags.empty_union]

theorem Heard.map_fst_told (h : s.Heard) : s.told.map Prod.fst =
    (s.subtree s.root).filter fun id => (s.updatePass.tiding? id).isSome := by
  have hfst : ∀ id x, s.updatePass.tiding? id = some x → x.1 = id := fun id x hx => by
    obtain ⟨n, -, -, rfl⟩ := tiding?_eq_some_iff.1 hx
    rfl
  rw [h.told_eq, List.map_filterMap, ← List.filterMap_eq_filter]
  refine List.filterMap_congr fun id _ => ?_
  cases hx : s.updatePass.tiding? id with
  | none => simp [Option.guard, hx]
  | some x => simp [hx, hfst id x hx]

theorem Heard.pairwise_told (h : s.Heard) :
    (s.told.map Prod.fst).Pairwise fun a b => ¬s.Above a b := by
  rw [h.map_fst_told]
  exact (h.sound.tree.pairwise_postorder _ s.root).filter _

theorem Heard.mem_map_told_iff (h : s.Heard) :
    id ∈ s.told.map Prod.fst ↔ ∃ i, s.Visit s.root .atRoot id i := by
  simp only [List.mem_map, Prod.exists, exists_and_right, exists_eq_right, h.mem_told_iff]
  constructor
  · rintro ⟨flags, n, i, -, hi, -⟩
    exact ⟨i, hi⟩
  · rintro ⟨i, hi⟩
    obtain ⟨n, hn, -⟩ := hi.exists_node?
    exact ⟨_, n, i, hn, hi, rfl⟩

end Scene

/-- What a node handed down to its children, when it was `before` and became `after`. -/
def Node.handedDown [Scalar R] (before after : Node R) : Flags :=
  (if after.world != before.world then .shape else ∅) ∪
    (if after.opacity != before.opacity then .paint else ∅)

namespace Scene

variable [Scalar R] {s s' : Scene R} {id p : NodeId} {i : Inherited R}
  {told : List (NodeId × Flags)}

/-- What a node inherited from its parent when `s` became `s'`, where the nodes in `told` were
recomputed. -/
def handed (s s' : Scene R) (told : List (NodeId × Flags)) (id : NodeId) : Flags :=
  match s.parent? id with
  | none => ∅
  | some p =>
    match s.node? p, s'.node? p with
    | some m, some m' => if p ∈ told.map Prod.fst then m.handedDown m' else ∅
    | _, _ => ∅

/-- The pass from `s` to `s'` tells its observers of the nodes in `told`. -/
structure TellsOf (s s' : Scene R) (told : List (NodeId × Flags)) : Prop where
  /-- The pass neither adds nor removes nodes, and changes nothing but what it computes. -/
  stays : Agree Node.raw s s'
  /-- Those nodes are told that were stale or inherited something, and of nothing else. -/
  exact : ∀ id flags, (id, flags) ∈ told ↔ ∃ n, s.node? id = some n ∧
    flags = n.stale ∪ s.handed s' told id ∧ flags ≠ ∅
  /-- Each of them is told once. -/
  once : (told.map Prod.fst).Nodup
  /-- No node comes before one that is below it. -/
  upward : (told.map Prod.fst).Pairwise fun a b => ¬s.Above a b
  /-- The children of a node come in their order. -/
  inOrder : ∀ p m, s.node? p = some m →
    (m.children.filter fun c => c ∈ told.map Prod.fst).Sublist (told.map Prod.fst)
  /-- Whatever the pass moved, faded or gave another box is told. -/
  complete : ∀ id n n', s.node? id = some n → s'.node? id = some n' → n'.caches ≠ n.caches →
    id ∈ told.map Prod.fst

namespace Heard

variable (h : s.Heard) (hspread : Spreads s.updatePass s')
include h hspread

/-- What a visited node hands down can be seen from what it was and became. -/
theorem flags_below {m m' : Node R} (hvisit : s.Visit s.root .atRoot p i)
    (hm : s.node? p = some m) (hm' : s'.node? p = some m') :
    (i.below m).flags = m.handedDown m' := by
  have heq := hspread.keeps.part_eq (h.sound.tree.node?_updatePass_of_visit hvisit hm) hm'
  simp only [Node.caches, Node.recomputed, Prod.mk.injEq] at heq
  rw [Node.handedDown, heq.2.1.1, heq.2.1.2.2]
  rfl

theorem flags_eq (hvisit : s.Visit s.root .atRoot id i) : i.flags = s.handed s' s.told id := by
  cases hvisit with
  | top hn hflags => rw [handed, h.sound.tree.parent?_root, Inherited.atRoot]
  | @child p c m n i hp hm hn hparent hflags =>
    obtain ⟨m', hm', -⟩ := hspread.keeps.node? (h.sound.tree.node?_updatePass_of_visit hp hm)
    rw [handed, parent?_of_node? hn, hparent]
    simp only [hm, hm']
    rw [if_pos (h.mem_map_told_iff.2 ⟨i, hp⟩), h.flags_below hspread hp hm hm']

/-- What is stale or inherits something is visited. -/
theorem exists_visit {n : Node R} (hn : s.node? id = some n)
    (hflags : n.stale ∪ s.handed s' s.told id ≠ ∅) : ∃ i, s.Visit s.root .atRoot id i := by
  by_cases hstale : n.stale = ∅
  · rw [handed] at hflags
    split at hflags
    next => exact absurd (by rw [hstale]; rfl) hflags
    next p hp =>
      split at hflags
      next m m' hm hm' =>
        split at hflags
        next htold =>
          obtain ⟨i, hi⟩ := h.mem_map_told_iff.1 htold
          rw [← h.flags_below hspread hi hm hm'] at hflags
          exact ⟨_, .child hi hm hn ((parent?_of_node? hn).symm.trans hp) hflags⟩
        next => exact absurd (by rw [hstale]; rfl) hflags
      next => exact absurd (by rw [hstale]; rfl) hflags
  · exact h.sound.exists_visit hn hstale

/-- A pass tells of what it visited. -/
theorem tellsOf : TellsOf s s' s.told where
  stays := (agree_updatePass (fun _ _ _ _ _ _ => rfl) s).trans (hspread.keeps.map Prod.fst)
  exact id flags := by
    rw [h.mem_told_iff]
    constructor
    · rintro ⟨n, i, hn, hi, rfl⟩
      obtain ⟨m, hm, hflags⟩ := hi.exists_node?
      rw [hn] at hm
      cases hm
      exact ⟨n, hn, by rw [h.flags_eq hspread hi], hflags⟩
    · rintro ⟨n, hn, rfl, hflags⟩
      obtain ⟨i, hi⟩ := h.exists_visit hspread hn hflags
      exact ⟨n, i, hn, hi, by rw [h.flags_eq hspread hi]⟩
  once := h.pairwise_told.imp fun {a b} hup (heq : a = b) => hup (heq ▸ .refl s a)
  upward := h.pairwise_told
  inOrder p m hm := by
    have hlisted := (h.sound.tree.children_sublist hm).trans
      (h.sound.tree.subtree_sublist (h.sound.tree.above_root hm))
    rw [h.map_fst_told, List.filter_congr fun c hc => show _ =
      (s.updatePass.tiding? c).isSome by simp [hlisted.subset hc]]
    exact hlisted.filter _
  complete id n n' hn hn' hcaches := by
    by_contra hnot
    have hskip : ∀ i, ¬s.Visit s.root .atRoot id i := fun i hi =>
      hnot (h.mem_map_told_iff.2 ⟨i, hi⟩)
    have hsame := (h.sound.tree.node?_updatePass_of_not_visit hskip).trans hn
    have heq := hspread.keeps.part_eq hsame hn'
    simp only [Prod.mk.injEq] at heq
    exact hcaches heq.2.1

end Heard

end Scene

/-! ## What an update tells -/

variable [Scalar R]

namespace Listener

open Stage

variable {ω' : Type} {l : Listener R ω} {l' : Listener R ω'} {f : ω' → ω}

theorem Passive.heard_pass (hl : l.Passive) {st : Stage R ω} (h : st.scene.Heard) :
    (pass l st).scene.Heard where
  sound := hl.sound_pass h.sound h.fits
  fits := (hl.stays_pass st).keeps_fits h.fits
  quiet := hl.not_news_pass h.sound h.fits h.quiet

theorem Passive.heard_iterate (hl : l.Passive) {st : Stage R ω} (h : st.scene.Heard) :
    ∀ k, ((pass l)^[k] st).scene.Heard := by
  intro k
  induction k with
  | zero => exact h
  | succ k ih =>
    rw [Function.iterate_succ_apply']
    exact hl.heard_pass ih

/-- With each of its passes, an update goes on to tell observers. -/
theorem Records.log_iterate (hl : l.Records) {st : Stage R (ω × List Notice)}
    (h : st.scene.Heard) : ∀ k, ((pass l.logged)^[k] st).observers = st.observers ∧
      ((pass l.logged)^[k] st).log = st.log ++ (List.range k).flatMap fun i =>
        Notice.ofTold st.observers ((pass l.logged)^[i] st).scene.told ++
          st.observers.map .completed := by
  intro k
  induction k with
  | zero => exact ⟨rfl, (List.append_nil _).symm⟩
  | succ k ih =>
    obtain ⟨hobservers, hlog⟩ := ih
    obtain ⟨hobservers', hlog'⟩ := hl.log_pass (hl.logged.passive.heard_iterate h k).sound
    rw [Function.iterate_succ_apply', hobservers', hlog', hobservers, hlog, List.range_succ,
      List.flatMap_append, List.flatMap_singleton, List.append_assoc]
    exact ⟨rfl, rfl⟩

theorem Projects.mapWorld_iterate (h : l'.Projects f l) (st : Stage R ω') (k : Nat) :
    ((pass l')^[k] st).mapWorld f = (pass l)^[k] (st.mapWorld f) :=
  (Function.Semiconj.iterate_right h.mapWorld_pass k).eq st

/-- What observers note down makes no difference to how many passes an update takes. -/
theorem Projects.iterates (h : l'.Projects f l) {st : Stage R ω'} {k : Nat}
    (hk : Iterates l' st k) : Iterates l (st.mapWorld f) k where
  within := hk.within
  dirty i hi := by
    rw [← h.mapWorld_iterate]
    exact hk.dirty i hi
  ends := by
    rw [← h.mapWorld_iterate]
    exact hk.ends
  settled := by
    obtain ⟨hanswer, hst⟩ := h.mapWorld_settleWithin st.scene.maxPasses st
    rw [hk.settled] at hanswer hst
    rw [← h.mapWorld_iterate]
    exact Prod.ext hanswer.symm hst.symm

end Listener

namespace Stage

theorem Iterates.world_settle {l : Listener R ω} {st : Stage R ω} {k : Nat}
    (h : Iterates l st k) : (settle l st).2.world = ((pass l)^[k] st).world := by
  rw [settle, h.settled]
  dsimp only
  split <;> rfl

/-- An update whose observers only record makes some passes.  With each of them it tells every
observer, children before their parents and siblings in their order, of the nodes that were stale or
inherited something, once and with all of that, among them all nodes that the pass changed, and then
that the pass is complete. -/
theorem settle_tells {l : Listener R ω} (hl : l.Records) {st : Stage R ω}
    (h : st.scene.Reachable) (hfits : st.scene.nodes.Fits) :
    ∃ k, Iterates l st k ∧
      (settle l.logged (st.withLog [])).1 = (settle l st).1 ∧
      (settle l.logged (st.withLog [])).2.unlogged = (settle l st).2 ∧
      (settle l.logged (st.withLog [])).2.log = (List.range k).flatMap (fun i =>
        Notice.ofTold st.observers ((pass l)^[i] st).scene.told ++ st.observers.map .completed) ∧
      ∀ i < k, TellsOf ((pass l)^[i] st).scene ((pass l)^[i + 1] st).scene
        ((pass l)^[i] st).scene.told := by
  have hheard : st.scene.Heard := ⟨h.sound hfits, hfits, h.not_news hfits⟩
  have hlogged := l.projects_logged
  obtain ⟨k, hk⟩ := exists_iterates l.logged (st.withLog [])
  obtain ⟨hanswer, hst⟩ := hlogged.mapWorld_settle (st.withLog [])
  have hscene : ∀ i, ((pass l.logged)^[i] (st.withLog [])).scene = ((pass l)^[i] st).scene :=
    fun i => congrArg Stage.scene (hlogged.mapWorld_iterate (st.withLog []) i)
  refine ⟨k, hlogged.iterates hk, hanswer, hst, ?_, fun i _ => ?_⟩
  · rw [log, hk.world_settle, ← log, (hl.log_iterate hheard k).2]
    simp only [hscene]
    rfl
  · rw [Function.iterate_succ_apply']
    exact (hl.passive.heard_iterate hheard i).tellsOf (hl.passive.spreads_pass _)

/-- A line in a group that was moved, a clone of the line, and an observer. -/
def watchedMove : Stage Int Unit :=
  run (Conduct.silent.listener 0) (.addObserver :: moved) (ofScene (Scene.new 16) ())

/-- The first pass tells of the line before the group and of the group before the root; it comes to
the clone no sooner than the second. -/
theorem settle_tells_watchedMove : watchedMove.observers = [0] ∧
    TellsOf watchedMove.scene (pass (Conduct.silent.listener 0) watchedMove).scene
      [(⟨2, 0⟩, .shape), (⟨1, 0⟩, .shape), (⟨0, 0⟩, .shape)] := by
  have hreach : watchedMove.scene.Reachable :=
    ⟨Unit, .silent, 0, 16, (), .addObserver :: moved, rfl⟩
  obtain ⟨k, hk, -, -, -, htells⟩ :=
    settle_tells (Conduct.records_silent.records 0) hreach (by decide)
  have hpos : 0 < k := by
    refine Nat.pos_of_ne_zero fun h => ?_
    rw [h] at hk
    exact hk.ends.elim (by decide) (by decide)
  have htold : watchedMove.scene.told =
      [(⟨2, 0⟩, .shape), (⟨1, 0⟩, .shape), (⟨0, 0⟩, .shape)] := by decide
  exact ⟨by decide, htold ▸ htells 0 hpos⟩

end Stage

end Freehand
