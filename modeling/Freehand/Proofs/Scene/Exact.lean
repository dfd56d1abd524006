import Freehand.Proofs.Scalar.Integers
import Freehand.Proofs.Scene.Run
import Freehand.Proofs.Scene.Spread

/-!
# An update is exact

A pass visits dirty nodes only, and yet after an update that settles all caches are what computing
them from scratch gives (`settle_exact`).

* A node that the pass does not visit inherits what it inherited before, since a parent whose
  placement or opacity changes hands stale aspects down.
* A node that the pass does not visit and that leads to a visited node shows it as a clone, since
  the parent of a visited node is visited.  So it subscribes to that node and is marked by the walk
  after the pass: what may have gone wrong is not clean, and the next pass comes to it.

Observers may note things down, but leave the scene alone.  Scalars that `==` takes for equal are
equal.
-/

namespace Freehand

open Scene

variable {R ω : Type} [Scalar R]

theorem Affine.eq_of_beq (hlaw : Scalar.Exact R) {m n : Affine R}
    (h : (m == n) = true) : m = n := by
  cases m
  cases n
  simp only [BEq.beq, instBEqAffine.beq, Bool.and_eq_true] at h
  obtain ⟨ha, hb, hc, hd, he, hf⟩ := h
  rw [hlaw.eq_of_beq _ _ ha, hlaw.eq_of_beq _ _ hb, hlaw.eq_of_beq _ _ hc,
    hlaw.eq_of_beq _ _ hd, hlaw.eq_of_beq _ _ he, hlaw.eq_of_beq _ _ hf]

namespace Scene

variable {s s' : Scene R} {id j p : NodeId} {n m : Node R} {i : Inherited R}

/-! ## What is handed down in a pass -/

/-- A node that hands no stale aspects down keeps its placement and its opacity. -/
theorem Inherited.below_eq (hlaw : Scalar.Exact R)
    (h : (i.below n).flags = ∅) :
    i.world * n.transform = n.world ∧ i.opacity * n.style.opacity = n.opacity := by
  simp only [Inherited.below] at h
  constructor
  · by_contra hne
    have hmoved : (i.world * n.transform != n.world) = true := by
      rw [bne, Bool.not_eq_true']
      by_contra heq
      exact hne (Affine.eq_of_beq hlaw (by simpa using heq))
    rw [if_pos hmoved] at h
    exact absurd (Flags.eq_empty_of_subset (h ▸ Flags.subset_union_left Flags.shape _)) (by decide)
  · by_contra hne
    have hfaded : (i.opacity * n.style.opacity != n.opacity) = true := by
      rw [bne, Bool.not_eq_true']
      by_contra heq
      exact hne (hlaw.eq_of_beq _ _ (by simpa using heq))
    rw [if_pos hfaded] at h
    exact absurd (Flags.eq_empty_of_subset (h ▸ Flags.subset_union_right _ Flags.paint)) (by decide)

theorem above_of_parent (hp : n.parent = some p) (hm : s.node? p = some m) :
    s.worldAbove n = m.world ∧ s.opacityAbove n = m.opacity := by
  rw [worldAbove, opacityAbove]
  rw [hp, Option.bind_some, hm]
  exact ⟨rfl, rfl⟩

theorem above_of_root (hp : n.parent = none) :
    s.worldAbove n = .identity ∧ s.opacityAbove n = 1 := by
  rw [worldAbove, opacityAbove]
  rw [hp, Option.bind_none]
  exact ⟨rfl, rfl⟩

/-- A visited node inherits what its parent has after the pass. -/
theorem Visit.above_eq (h : s.Tree) (hvisit : s.Visit s.root .atRoot j i)
    (hn : s.node? j = some n) :
    s.updatePass.worldAbove n = i.world ∧ s.updatePass.opacityAbove n = i.opacity := by
  cases hvisit with
  | top hm _ =>
    obtain ⟨k, hk, -, hnone⟩ := h.root
    rw [hn] at hk
    cases hk
    exact above_of_root hnone
  | child hp hm hk hparent _ =>
    rw [hn] at hk
    cases hk
    exact above_of_parent hparent (h.node?_updatePass_of_visit hp hm)

/-- A node that is not visited inherits what it inherited before, unless its parent was visited and
hands no stale aspects down. -/
theorem Sound.above_cases_of_not_visit (h : s.Sound)
    (hskip : ∀ i, ¬s.Visit s.root .atRoot j i) (hn : s.node? j = some n) :
    (s.updatePass.worldAbove n = s.worldAbove n ∧
        s.updatePass.opacityAbove n = s.opacityAbove n) ∨
      ∃ (i : Inherited R) (m : Node R), (i.below m).flags = ∅ ∧
        (s.worldAbove n = m.world ∧ s.opacityAbove n = m.opacity) ∧
        s.updatePass.worldAbove n = (i.below m).world ∧
        s.updatePass.opacityAbove n = (i.below m).opacity := by
  cases hp : n.parent with
  | none =>
    obtain ⟨hworld, hopacity⟩ := above_of_root (s := s) hp
    rw [hworld, hopacity]
    exact .inl (above_of_root hp)
  | some p =>
    obtain ⟨m, hm, -⟩ := h.tree.node?_of_parent? ((parent?_of_node? hn).trans hp)
    by_cases hvisit : ∃ i, s.Visit s.root .atRoot p i
    · obtain ⟨i, hi⟩ := hvisit
      have hflags : (i.below m).flags = ∅ := by
        by_contra hne
        exact hskip _ (.child hi hm hn hp
          (Flags.ne_empty_of_subset (Flags.subset_union_right _ _) hne))
      exact .inr ⟨i, m, hflags, above_of_parent hp hm,
        above_of_parent hp (h.tree.node?_updatePass_of_visit hi hm)⟩
    · have hsame := h.tree.node?_updatePass_of_not_visit fun i hi => hvisit ⟨i, hi⟩
      obtain ⟨hworld, hopacity⟩ := above_of_parent hp hm
      rw [hworld, hopacity]
      exact .inl (above_of_parent hp (hsame.trans hm))

/-- A node that is not visited inherits what it inherited before. -/
theorem Sound.above_eq_of_not_visit (hlaw : Scalar.Exact R) (h : s.Sound)
    (hskip : ∀ i, ¬s.Visit s.root .atRoot j i) (hn : s.node? j = some n) :
    s.updatePass.worldAbove n = s.worldAbove n ∧
      s.updatePass.opacityAbove n = s.opacityAbove n := by
  rcases h.above_cases_of_not_visit hskip hn with hsame | ⟨i, m, hflags, ⟨hw, ho⟩, hw', ho'⟩
  · exact hsame
  · obtain ⟨hworld, hopacity⟩ := Inherited.below_eq hlaw hflags
    exact ⟨hw'.trans (hworld.trans hw.symm), ho'.trans (hopacity.trans ho.symm)⟩

/-- After a pass every node has the placement and the opacity that its parent hands down. -/
theorem Fresh.placed_updatePass (hlaw : Scalar.Exact R) (h : s.Fresh)
    (hs : s.Sound) (hn : s.updatePass.node? j = some n) :
    n.world = s.updatePass.worldAbove n * n.transform ∧
      n.opacity = s.updatePass.opacityAbove n * n.style.opacity := by
  have hstale := hs.stale_updatePass hn
  rcases hs.tree.node?_updatePass_cases hn with ⟨i, n₀, hi, hn₀, rfl⟩ | ⟨hskip, hn₀⟩
  · obtain ⟨hworld, hopacity⟩ := hi.above_eq hs.tree hn₀
    have habove : s.updatePass.worldAbove (n₀.recomputed i (s.updatePass.computeBox j)) =
        s.updatePass.worldAbove n₀ ∧
        s.updatePass.opacityAbove (n₀.recomputed i (s.updatePass.computeBox j)) =
        s.updatePass.opacityAbove n₀ := ⟨rfl, rfl⟩
    rw [habove.1, habove.2, hworld, hopacity]
    exact ⟨rfl, rfl⟩
  · obtain ⟨hworld, hopacity⟩ := hs.above_eq_of_not_visit hlaw hskip hn₀
    rw [hworld, hopacity]
    exact ⟨h.world hn₀ hstale, h.opacity hn₀ hstale⟩

/-! ## Boxes after a pass -/

/-- What a clean node reaches after the walk was not visited in the pass before it, if the node
itself was not. -/
theorem Sound.not_visit_of_clean {d : NodeId} (h : s.Sound) (hspread : Spreads s.updatePass s')
    (hquiet : ∀ j, ¬s'.News j) (hclean : s'.Clean id)
    (hskip : ∀ i, ¬s.Visit s.root .atRoot id i) (hd : s.Reaches id d) :
    ∀ i, ¬s.Visit s.root .atRoot d i := by
  have hraw : Agree Node.raw s s' :=
    (agree_updatePass (fun _ _ _ _ _ _ => rfl) s).trans (hspread.keeps.map Prod.fst)
  induction hd with
  | refl => exact hskip
  | @tail u v hu hleads ih =>
    intro i hvisit
    obtain ⟨n, hn, hchild | hsource⟩ := hleads
    · have hparent := (h.tree.mem_children_iff hn).1 hchild
      obtain ⟨i', hi'⟩ := hvisit.parent (h.tree.ne_root_of_parent? hparent) hparent
      exact ih i' hi'
    · have hheld : s.held? u .cloneSource = some v := (held?_of_node? hn).trans hsource
      obtain ⟨⟨⟨m, hm, -⟩, -⟩, hsub⟩ :=
        h.linked.subscribed hn ((h.linked.holds_iff hn v _).1 hheld)
      obtain ⟨m', hm', hchanged⟩ := h.tree.news_updatePass_iff.2 (.inr ⟨i, hvisit⟩)
      have hlinks : m'.subscribers = m.subscribers := by
        rw [h.tree.node?_updatePass_of_visit hvisit hm] at hm'
        cases hm'
        rfl
      rcases hspread.told hm' hchanged with hnews | hmarked
      · exact hquiet v hnews
      · obtain ⟨k, hk, -⟩ := hraw.node? hn
        have hstale := hmarked ⟨u, .cloneSource⟩ (hlinks ▸ hsub m hm) k hk
        rw [hclean ((hraw.symm.sameContent id).reaches hu) hk] at hstale
        have hempty : Role.cloneSource.stale = ∅ := Flags.eq_empty_of_subset hstale
        exact absurd hempty (by decide)

/-- A node that is clean after the walk got the right box in the pass, or had it before. -/
theorem Fresh.box_updatePass (h : s.Fresh) (hs : s.Sound) (hspread : Spreads s.updatePass s')
    (hquiet : ∀ j, ¬s'.News j) (hclean : s'.Clean id) (hn : s.updatePass.node? id = some n) :
    n.box = s.updatePass.computeBox id := by
  have hraw : Agree Node.raw s s.updatePass := agree_updatePass (fun _ _ _ _ _ _ => rfl) s
  rcases hs.tree.node?_updatePass_cases hn with ⟨i, m, -, -, rfl⟩ | ⟨hskip, hn₀⟩
  · rfl
  · have hsame : ∀ {d}, s.Reaches id d → s.updatePass.node? d = s.node? d := fun hd =>
      hs.tree.node?_updatePass_of_not_visit
        (hs.not_visit_of_clean hspread hquiet hclean hskip hd)
    have hclean₀ : s.Clean id := by
      intro d m hd hm
      by_contra hstale
      obtain ⟨i, hi⟩ := hs.exists_visit hm hstale
      exact hs.not_visit_of_clean hspread hquiet hclean hskip hd i hi
    rw [h.box hn₀ hclean₀]
    refine (computeBox_congr (hraw.sameContent id) ?_ fun k hk c hc => ?_).symm
    · rw [hsame .refl]
    · rw [hsame (.single ⟨k, hk, .inl hc⟩)]

/-- A pass and the walk after it keep a scene fresh. -/
theorem Fresh.of_spreads (hlaw : Scalar.Exact R) (h : s.Fresh) (hs : s.Sound)
    (hspread : Spreads s.updatePass s') (hquiet : ∀ j, ¬s'.News j) (hs' : s'.Sound) :
    s'.Fresh := by
  have hback : ∀ {id n'}, s'.node? id = some n' → ∃ n, s.updatePass.node? id = some n ∧
      n'.raw = n.raw ∧ n'.caches = n.caches := by
    intro id n' hn'
    obtain ⟨n, hn, heq⟩ := hspread.keeps.symm.node? hn'
    simp only [Prod.mk.injEq] at heq
    exact ⟨n, hn, heq.1.symm, heq.2.1.symm⟩
  have hcaches : ∀ ⦃id n n'⦄, s.updatePass.node? id = some n → s'.node? id = some n' →
      n'.caches = n.caches := by
    intro id n n' hn hn'
    obtain ⟨k, hk, -, hsame⟩ := hback hn'
    rw [hn] at hk
    cases hk
    exact hsame
  have hplaced : ∀ {id n'}, s'.node? id = some n' → n'.world = s'.worldAbove n' * n'.transform ∧
      n'.opacity = s'.opacityAbove n' * n'.style.opacity := by
    intro id n' hn'
    obtain ⟨n, hn, hsame, hkept⟩ := hback hn'
    simp only [Node.raw, Node.caches, Prod.mk.injEq] at hsame hkept
    obtain ⟨-, htransform, -, hopacity, hparent, -⟩ := hsame
    obtain ⟨habove, habove'⟩ :=
      above_eq_of_caches hs.updatePass.tree hs'.tree hcaches hn hn' hparent
    obtain ⟨hworld, hfade⟩ := h.placed_updatePass hlaw hs hn
    rw [hkept.1, hkept.2.2, habove, habove', htransform, hopacity]
    exact ⟨hworld, hfade⟩
  refine ⟨fun id n' hn' _ => (hplaced hn').1, fun id n' hn' _ => (hplaced hn').2,
    fun id n' hn' hclean => ?_⟩
  have hbox : s'.computeBox id = s.updatePass.computeBox id :=
    computeBox_congr ((hspread.keeps.map Prod.fst).sameContent id)
      (hspread.keeps.map (fun part => part.2.1.1) id)
      fun _ _ c _ => hspread.keeps.map (fun part => part.2.1.2.1) c
  obtain ⟨n, hn, -, hkept⟩ := hback hn'
  have hkeptbox : n'.box = n.box := (congrArg (fun caches => caches.2.1) hkept :)
  rw [hkeptbox, hbox]
  exact h.box_updatePass hs hspread hquiet hclean hn

/-! ## Scenes between updates -/

/-- What a scene is between updates: sound, without news, and exact where it is not stale. -/
structure Current (s : Scene R) : Prop where
  sound : s.Sound
  quiet : ∀ j, ¬s.News j
  fresh : s.Fresh

/-- The scene evolves, and what is not stale stays exact. -/
structure Refreshes (s s' : Scene R) : Prop where
  evolves : Evolves s s'
  fresh : s'.nodes.Fits → s.Current → s'.Fresh

namespace Refreshes

variable {s'' : Scene R}

theorem current (h : Refreshes s s') (hfits : s'.nodes.Fits) (hs : s.Current) : s'.Current where
  sound := h.evolves.sound hfits hs.sound
  quiet j hj := hs.quiet j ((h.evolves.quiets hfits hs.sound).fades hj).1
  fresh := h.fresh hfits hs

theorem refl (s : Scene R) : Refreshes s s :=
  ⟨.refl s, fun _ hs => hs.fresh⟩

theorem trans (h : Refreshes s s') (h' : Refreshes s' s'') : Refreshes s s'' :=
  ⟨h.evolves.trans h'.evolves, fun hfits hs =>
    h'.fresh hfits (h.current (h'.evolves.fits hfits) hs)⟩

theorem of_nodes_eq (hnodes : s'.nodes = s.nodes) (hroot : s'.root = s.root) : Refreshes s s' := by
  have hevolves := evolves_of_nodes_eq hnodes hroot
  exact ⟨hevolves, fun hfits hs => hs.fresh.of_edited hs.sound (hevolves.sound hfits hs.sound)
    (edited_of_nodes_eq hnodes)⟩

end Refreshes

theorem cumulative_refreshes : Cumulative (Refreshes (R := R)) :=
  ⟨.refl, .trans, .of_nodes_eq⟩

end Scene

/-! ## Updates -/

namespace Listener.Passive

open Stage

variable {l : Listener R ω}

omit [Scalar R] in
theorem orderly (hl : l.Passive) : l.Orderly :=
  ⟨fun o id flags st => by rw [hl.modified]; exact .refl st.scene,
    fun o st => by rw [hl.completed]; exact .refl st.scene⟩

variable (hlaw : Scalar.Exact R)
include hlaw

/-- A pass brings what it visits up to date, and observers that leave the scene alone keep it so. -/
theorem refreshes_pass (hl : l.Passive) (st : Stage R ω) :
    Refreshes st.scene (pass l st).scene := by
  have hnodes : (pass l st).scene.nodes =
      (notifyPass l { st with scene := st.scene.updatePass }).scene.nodes := by
    show (dispatch _ l.completed).scene.nodes = _
    rw [scene_dispatch hl.completed]
  have hroot : (pass l st).scene.root =
      (notifyPass l { st with scene := st.scene.updatePass }).scene.root := by
    show (dispatch _ l.completed).scene.root = _
    rw [scene_dispatch hl.completed]
  refine Refreshes.trans ⟨hl.orderly.evolves_notifyPass st, fun hfits hs => ?_⟩
    (.of_nodes_eq hnodes hroot)
  have hevolves := hl.orderly.evolves_notifyPass st
  have hspread := hl.spreads_notifySubtree st.scene.updatePass.nodes.slots.size
    st.scene.updatePass.root { st with scene := st.scene.updatePass }
  exact hs.fresh.of_spreads hlaw hs.sound hspread
    (fun j hj => hs.quiet j ((hevolves.quiets hfits hs.sound).fades hj).1)
    (hevolves.sound hfits hs.sound)

theorem refreshes_settle (hl : l.Passive) (st : Stage R ω) :
    Refreshes st.scene (settle l st).2.scene :=
  cumulative_refreshes.settle (hl.refreshes_pass hlaw) st

theorem refreshes_run (hl : l.Passive) (commands : List (Command R ω)) (st : Stage R ω) :
    Refreshes st.scene (run l commands st).scene := by
  refine cumulative_refreshes.foldl (cumulative_refreshes.perform (hl.refreshes_pass hlaw)
    (fun he => ?_) (fun hadd => ?_) fun hrem => ?_) commands st
  · exact ⟨(revised_apply _ he).evolves, fun _ hs => hs.fresh.of_revised hs.sound
      (revised_apply _ he)⟩
  · exact ⟨hadd.evolves, fun hfits hs => hs.fresh.of_added hs.sound hadd hfits⟩
  · exact ⟨evolves_remove hrem, fun _ hs => hs.fresh.remove hs.sound hrem⟩

end Listener.Passive

/-! ## Recording observers -/

/-- Observers only note things down. -/
structure Conduct.Records (c : Conduct R ω) : Prop where
  modified : ∀ o id flags st, ∀ command ∈ c.modified o id flags st, ∃ f, command = .record f
  completed : ∀ o st, ∀ command ∈ c.completed o st, ∃ f, command = .record f

omit [Scalar R] in
theorem Conduct.records_silent : (Conduct.silent : Conduct R ω).Records :=
  ⟨fun _ _ _ _ => nofun, fun _ _ => nofun⟩

theorem Stage.scene_run_of_records {l : Listener R ω} :
    ∀ {commands : List (Command R ω)} {st : Stage R ω},
      (∀ command ∈ commands, ∃ f, command = .record f) → (run l commands st).scene = st.scene := by
  intro commands
  induction commands with
  | nil => exact fun _ => rfl
  | cons command commands ih =>
    intro st h
    obtain ⟨f, rfl⟩ := h command List.mem_cons_self
    show (run l commands (perform l st (.record f))).scene = (perform l st (.record f)).scene
    exact ih fun d hd => h d (List.mem_cons_of_mem _ hd)

theorem Conduct.Records.passive {c : Conduct R ω} (hc : c.Records) :
    ∀ depth, (c.listener depth).Passive := by
  intro depth
  cases depth with
  | zero => exact ⟨fun _ _ _ _ => rfl, fun _ _ => rfl⟩
  | succ depth =>
    exact ⟨fun o id flags st => Stage.scene_run_of_records (hc.modified o id flags st),
      fun o st => Stage.scene_run_of_records (hc.completed o st)⟩

namespace Scene

/-- In a new scene there is the root only, and its caches are right. -/
theorem current_new (hlaw : Scalar.Exact R) (maxPasses : Nat) :
    (new maxPasses : Scene R).Current where
  sound := sound_new maxPasses
  quiet := not_news_new maxPasses
  fresh := by
    refine ⟨fun id n hn _ => ?_, fun id n hn _ => ?_, fun id n hn _ => ?_⟩
    · rw [(eq_of_node?_new hn).2]
      exact hlaw.identity_mul_identity.symm
    · rw [(eq_of_node?_new hn).2]
      exact hlaw.one_mul_one.symm
    · rw [computeBox, hn, (eq_of_node?_new hn).2]
      rfl

end Scene

/-- Whenever an update settles, every node has the placement, the opacity and the box that computing
them from scratch gives, although each pass visited dirty nodes only. -/
theorem Stage.settle_exact (hlaw : Scalar.Exact R) {c : Conduct R ω} (hc : c.Records)
    (depth maxPasses : Nat) (w : ω) (commands : List (Command R ω)) {st : Stage R ω}
    (hsettle : settle (c.listener depth)
      (run (c.listener depth) commands (ofScene (Scene.new maxPasses) w)) = (.ok (), st))
    (hfits : st.scene.nodes.Fits) {id : NodeId} {n : Node R} (hn : st.scene.node? id = some n) :
    (id = st.scene.root → n.world = .identity * n.transform ∧ n.opacity = 1 * n.style.opacity) ∧
    (id ≠ st.scene.root → ∃ p m, n.parent = some p ∧ st.scene.node? p = some m ∧
      n.world = m.world * n.transform ∧ n.opacity = m.opacity * n.style.opacity) ∧
    n.box = st.scene.computeBox id := by
  have hpassive := hc.passive depth
  have hrefresh := (hpassive.refreshes_run hlaw commands (ofScene (Scene.new maxPasses) w)).trans
    (hpassive.refreshes_settle hlaw _)
  have hclean : (settle (c.listener depth) (run (c.listener depth) commands
      (ofScene (Scene.new maxPasses) w))).2.scene.isDirty = false :=
    not_isDirty_settle (by rw [hsettle])
  rw [hsettle] at hrefresh hclean
  have hcurrent := hrefresh.current hfits (current_new hlaw maxPasses)
  have hstale : ∀ {id n}, st.scene.node? id = some n → n.stale = ∅ :=
    hcurrent.sound.stale_of_not_isDirty hclean
  have hworld := hcurrent.fresh.world hn (hstale hn)
  have hopacity := hcurrent.fresh.opacity hn (hstale hn)
  refine ⟨fun hid => ?_, fun hid => ?_, hcurrent.fresh.box hn fun d m _ hm => hstale hm⟩
  · obtain ⟨k, hk, -, hnone⟩ := hcurrent.sound.tree.root
    rw [← hid, hn] at hk
    cases hk
    obtain ⟨habove, habove'⟩ := above_of_root (s := st.scene) hnone
    rw [habove] at hworld
    rw [habove'] at hopacity
    exact ⟨hworld, hopacity⟩
  · obtain ⟨p, m, hp, hm, -⟩ := hcurrent.sound.tree.parent hn hid
    obtain ⟨habove, habove'⟩ := above_of_parent hp hm
    rw [habove] at hworld
    rw [habove'] at hopacity
    exact ⟨p, m, hp, hm, hworld, hopacity⟩

/-! ## An update over the integers -/

/-- A line in a group, a clone of the line, and the group moved after an update. -/
def Stage.moved : List (Command Int Unit) :=
  [.addChild ⟨0, 0⟩ (.group false), .addChild ⟨1, 0⟩ (.path [.moveTo ⟨0, 0⟩, .lineTo ⟨2, 1⟩]),
    .addChild ⟨0, 0⟩ (.clone (some ⟨2, 0⟩)), .settle,
    .edit (.setTransform ⟨1, 0⟩ ⟨1, 0, 0, 1, 5, 7⟩)]

theorem Stage.settle_exact_moved :
    ∃ st : Stage Int Unit, settle (Conduct.silent.listener 0)
        (run (Conduct.silent.listener 0) moved (ofScene (Scene.new 16) ())) = (.ok (), st) ∧
      ∃ n p m, st.scene.node? ⟨2, 0⟩ = some n ∧ n.parent = some p ∧ st.scene.node? p = some m ∧
        n.world = m.world * n.transform ∧ n.box = st.scene.computeBox ⟨2, 0⟩ := by
  have hlive : ((settle (Conduct.silent.listener 0) (run (Conduct.silent.listener 0) moved
      (ofScene (Scene.new 16) ()))).2.scene.contains ⟨2, 0⟩) = true := by decide
  obtain ⟨n, hn⟩ := contains_iff.1 hlive
  obtain ⟨-, hinner, hbox⟩ := settle_exact Scalar.exact_integers Conduct.records_silent 0 16 ()
    moved (Prod.ext rfl rfl) (by decide) hn
  obtain ⟨p, m, hp, hm, hworld, -⟩ := hinner (by decide)
  exact ⟨_, Prod.ext rfl rfl, n, p, m, hn, hp, hm, hworld, hbox⟩

end Freehand
