import Freehand.Proofs.Scene.Dependence

/-!
# Updates that never settle

A pass that visits a node tells it, which marks its subscribers for the next pass.  It visits the
parent of the node too, and the children of a node whose placement is never equal to what it was,
as those that are no numbers.  So a visit to one node can stir another one up for the next pass
(`Scene.Stirs`).

If stirring leads from a node back to itself, and the node is visited once, then every pass leaves
something stale, and no number of passes is enough (`Listener.Passive.settle_diverges`).
-/

namespace Freehand

open Relation (TransGen ReflTransGen)

variable {R ω : Type} [Scalar R]

/-- Wherever it is placed, the node does not compare equal to where it was. -/
def Node.Drifts (n : Node R) : Prop :=
  ∀ w v : Affine R, (w * n.transform != v) = true

namespace Scene

variable {s s' : Scene R} {a b c j k o p : NodeId} {n : Node R}

/-- A pass that begins with this scene visits the node. -/
def Visits (s : Scene R) (j : NodeId) : Prop :=
  ∃ i, s.Visit s.root .atRoot j i

/-- A pass that visits `j` visits this node too: the parent of `j`, or a child of it if `j` is never
where it was. -/
inductive Carries (s : Scene R) (j : NodeId) : NodeId → Prop where
  | parent {p : NodeId} (hp : s.parent? j = some p) : Carries s j p
  | child {c : NodeId} {n : Node R} (hn : s.node? j = some n) (hc : s.parent? c = some j)
      (hdrifts : n.Drifts) : Carries s j c

/-- A pass that visits `j` leaves this node stale: a subscriber of what is visited with `j`. -/
def Stirs (s : Scene R) (j o : NodeId) : Prop :=
  ∃ k n r, ReflTransGen s.Carries j k ∧ s.node? k = some n ∧ ⟨o, r⟩ ∈ n.subscribers

/-- A pass that visits a node visits its parent, and its children if it is never where it was. -/
theorem Visits.carries (h : s.Visits j) (hs : s.Tree) (hjk : s.Carries j k) : s.Visits k := by
  obtain ⟨i, hvisit⟩ := h
  cases hjk with
  | parent hp => exact hvisit.parent (hs.ne_root_of_parent? hp) hp
  | @child n hn hc hdrifts =>
    obtain ⟨m, hm, hparent⟩ := parent?_eq_some_iff.1 hc
    have hmoved : (i.below n).flags ≠ ∅ := by
      simp only [Inherited.below]
      rw [if_pos (hdrifts i.world n.world)]
      exact Flags.ne_empty_of_subset (Flags.subset_union_left _ _) (by decide)
    exact ⟨_, .child hvisit hn hm hparent
      (Flags.ne_empty_of_subset (Flags.subset_union_right _ _) hmoved)⟩

theorem Visits.reaches (h : s.Visits j) (hs : s.Tree) (hway : ReflTransGen s.Carries j k) :
    s.Visits k := by
  induction hway with
  | refl => exact h
  | tail _ hstep ih => exact ih.carries hs hstep

theorem Sound.visits_of_stale (h : s.Sound) (hstale : s.Stale j) : s.Visits j := by
  obtain ⟨n, hn, hne⟩ := hstale
  exact h.exists_visit hn hne

/-- Visits begin at the root. -/
theorem Visits.isDirty (h : s.Visits j) (hs : s.Tree) : s.isDirty = true := by
  obtain ⟨i, hvisit⟩ := h
  obtain ⟨n, hn, -⟩ := hs.root
  have hflags := hvisit.flags_ne_empty hn
  rw [Scene.isDirty, hn, Option.any_some, Node.isDirty, Bool.not_eq_true', ← Bool.not_eq_true,
    Flags.isEmpty_iff]
  intro hempty
  refine hflags (Flags.eq_empty_of_subset ?_)
  rw [← hempty]
  exact Flags.union_subset (Flags.subset_union_left _ _) (Flags.empty_subset _)

theorem Carries.of_agree (hagree : Agree Node.raw s s') (h : s.Carries a b) : s'.Carries a b := by
  have hparent : ∀ id, s'.parent? id = s.parent? id :=
    parent?_eq_of_agree (hagree.map fun raw => raw.2.2.2.2.1)
  cases h with
  | parent hp => exact .parent ((hparent a).trans hp)
  | @child n hn hc hdrifts =>
    obtain ⟨n', hn', heq⟩ := hagree.node? hn
    have htransform : n'.transform = n.transform := (congrArg (fun raw => raw.2.1) heq :)
    refine .child hn' ((hparent b).trans hc) fun w v => ?_
    rw [htransform]
    exact hdrifts w v

theorem Stirs.of_agree (hagree : Agree (fun n => (n.raw, n.subscribers)) s s')
    (h : s.Stirs a b) : s'.Stirs a b := by
  obtain ⟨k, n, r, hway, hn, hr⟩ := h
  obtain ⟨n', hn', heq⟩ := hagree.node? hn
  have hsubscribers : n'.subscribers = n.subscribers := congrArg Prod.snd heq
  exact ⟨k, n', r, ReflTransGen.mono (fun _ _ => Carries.of_agree (hagree.map Prod.fst)) _ _ hway,
    hn', hsubscribers ▸ hr⟩

omit [Scalar R] in
theorem cumulative_stays : Cumulative (Stays (R := R)) :=
  ⟨.refl, .trans, fun hnodes hroot => ⟨hroot, by rw [hnodes], fun hvalid => hnodes ▸ hvalid⟩⟩

end Scene

/-! ## Passes -/

open Scene

namespace Listener.Passive

open Stage

variable {l : Listener R ω} {st : Stage R ω} {id j k o : NodeId} {n : Node R} {r : Role}

theorem stays_pass (hl : l.Passive) (st : Stage R ω) : Stays st.scene (pass l st).scene := by
  refine cumulative_stays.passes stays_touch (fun s id => stays_modify s id _) stays_updatePass
    (fun o id flags st => ?_) (fun o st => ?_) st
  · rw [hl.modified]
    exact .refl st.scene
  · rw [hl.completed]
    exact .refl st.scene

theorem spreads_pass (hl : l.Passive) (st : Stage R ω) :
    Spreads st.scene.updatePass (pass l st).scene := by
  have hwalk := hl.spreads_notifySubtree st.scene.updatePass.nodes.slots.size
    st.scene.updatePass.root { st with scene := st.scene.updatePass }
  refine hwalk.trans (.of_node?_eq fun id => ?_)
  show (dispatch _ l.completed).scene.node? id = _
  rw [scene_dispatch hl.completed]
  rfl

variable (hl : l.Passive) (hs : st.scene.Sound) (hfits : st.scene.nodes.Fits)
  (hquiet : ∀ j, ¬st.scene.News j)
include hl hs hfits hquiet

theorem not_news_pass (j : NodeId) : ¬(pass l st).scene.News j :=
  Stage.not_news_pass hl.orderly hs ((hl.stays_pass st).keeps_fits hfits) hquiet j

omit hquiet in
theorem sound_pass : (pass l st).scene.Sound :=
  (hl.orderly.evolves_pass st).sound ((hl.stays_pass st).keeps_fits hfits) hs

/-- A subscriber of a visited node is stale after the pass. -/
theorem stale_pass (hvisit : st.scene.Visits k) (hn : st.scene.node? k = some n)
    (hr : ⟨o, r⟩ ∈ n.subscribers) : (pass l st).scene.Stale o := by
  have hspread := hl.spreads_pass st
  have hagree : Agree (fun n => (n.raw, n.subscribers)) st.scene (pass l st).scene :=
    (agree_updatePass (fun _ _ _ _ _ _ => rfl) st.scene).trans
      (hspread.keeps.map fun part => (part.1, part.2.2))
  obtain ⟨m, hm, hchanged⟩ := hs.tree.news_updatePass_iff.2 (.inr hvisit)
  have hpassed : Agree Node.subscribers st.scene st.scene.updatePass :=
    agree_updatePass (fun _ _ _ _ _ _ => rfl) st.scene
  have hsubscribers : m.subscribers = n.subscribers := hpassed.part_eq hn hm
  rcases hspread.told hm hchanged with hnews | hmarked
  · exact absurd hnews (hl.not_news_pass hs hfits hquiet k)
  · obtain ⟨⟨q, hq⟩, -⟩ := (hs.linked.mem_subscribers hn o r).1 hr
    obtain ⟨q', hq', -⟩ := hagree.node? hq
    have hrole : r.stale ≠ ∅ := by cases r <;> decide
    refine ⟨q', hq', Flags.ne_empty_of_subset (hmarked ⟨o, r⟩ ?_ q' hq') hrole⟩
    rw [hsubscribers]
    exact hr

/-- What a visited node stirs up is visited by the next pass, and stirs up the same. -/
theorem visits_pass (hvisit : st.scene.Visits j) (hstirs : st.scene.Stirs j o) :
    (pass l st).scene.Visits o ∧
      ∀ ⦃a b⦄, st.scene.Stirs a b → (pass l st).scene.Stirs a b := by
  obtain ⟨k, n, r, hway, hn, hr⟩ := hstirs
  have hagree : Agree (fun n => (n.raw, n.subscribers)) st.scene (pass l st).scene :=
    (agree_updatePass (fun _ _ _ _ _ _ => rfl) st.scene).trans
      ((hl.spreads_pass st).keeps.map fun part => (part.1, part.2.2))
  refine ⟨(hl.sound_pass hs hfits).visits_of_stale ?_, fun a b => Stirs.of_agree hagree⟩
  exact hl.stale_pass hs hfits hquiet (hvisit.reaches hs.tree hway) hn hr

omit hs hfits hquiet in
/-- The cycle is followed, one step with each pass. -/
theorem settleWithin_diverges :
    ∀ (limit : Nat) {st : Stage R ω} {j : NodeId}, st.scene.Sound → st.scene.nodes.Fits →
      (∀ j, ¬st.scene.News j) → st.scene.Visits j → TransGen st.scene.Stirs j j →
      (settleWithin l limit st).1 = false := by
  intro limit
  induction limit with
  | zero =>
    intro st j hs _ _ hvisit _
    rw [settleWithin, if_pos (hvisit.isDirty hs.tree)]
  | succ limit ih =>
    intro st j hs hfits hquiet hvisit hcycle
    rw [settleWithin_dirty (hvisit.isDirty hs.tree)]
    obtain ⟨o, hstirs, hback⟩ := Relation.TransGen.head'_iff.1 hcycle
    obtain ⟨hvisit', hkept⟩ := hl.visits_pass hs hfits hquiet hvisit hstirs
    have hfits' := (hl.stays_pass st).keeps_fits hfits
    have hcycle' : TransGen (pass l st).scene.Stirs o o :=
      .tail' (ReflTransGen.mono (fun _ _ hab => hkept hab) _ _ hback) (hkept hstirs)
    exact ih (hl.sound_pass hs hfits) hfits' (hl.not_news_pass hs hfits hquiet) hvisit'
      hcycle'

omit hs hfits hquiet in
/-- Where a stale node stirs itself up, no number of passes is enough. -/
theorem settle_diverges (hreach : st.scene.Reachable) (hfits : st.scene.nodes.Fits)
    (hstale : st.scene.Stale j) (hcycle : TransGen st.scene.Stirs j j) (limit : Nat) :
    (settle l { st with scene.maxPasses := limit }).1 = .error (.noConvergence limit) := by
  have hs : ({ st.scene with maxPasses := limit } : Scene R).Sound :=
    (hreach.sound hfits).of_nodes_eq rfl rfl
  have hagree : Agree (fun n => (n.raw, n.subscribers)) st.scene
      { st.scene with maxPasses := limit } := .of_node?_eq fun _ => rfl
  have hcycle' : TransGen ({ st.scene with maxPasses := limit } : Scene R).Stirs j j :=
    TransGen.mono (fun _ _ hab => Stirs.of_agree hagree hab) _ _ hcycle
  have hdiverges : (settleWithin l limit { st with scene.maxPasses := limit }).1 = false :=
    hl.settleWithin_diverges limit hs hfits (hreach.not_news hfits) (hs.visits_of_stale hstale)
      hcycle'
  simp [settle, hdiverges]

end Listener.Passive

end Freehand
