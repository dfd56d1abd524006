import Freehand.Proofs.Scene.Placement
import Mathlib.Logic.Function.Iterate

/-!
# How many passes an update needs

Changes of a node reach its ancestors within a pass, and its subscribers with the next one.  A
`Route` leads from nodes to their parents, and to their subscribers, and counts the latter.  If no
route leads to more than `L` subscribers, an update settles within `L + 1` passes
(`Stage.settle_converges`), provided that observers mark nothing stale and placing composes numbers
only.

The first pass aligns the scene.  From then on a pass hands nothing down, so a node is told only if
it was stale, and what telling it marks stale are its subscribers and what is above these
(`Scene.Calm`, `Listener.Calms.pass`).  They have fewer subscribers ahead.
-/

namespace Freehand

open Scene

variable {R ω : Type}

/-- Scalars that are all numbers, and equal if `==` says so, are steady. -/
theorem Scalar.Exact.steady [Scalar R] (h : Scalar.Exact R) (hnumber : ∀ a : R, (a == a) = true) :
    Scalar.Steady R := by
  have heq : ∀ {a b : R}, Alike a b → a = b := by
    rintro a b (hab | ⟨hnone, -⟩)
    · exact h.eq_of_beq a b hab
    · rw [hnumber a] at hnone
      cases hnone
  exact {
    symm := fun a b hab => by rw [h.eq_of_beq a b hab, hnumber]
    trans := fun a b c hab hbc => by rwa [h.eq_of_beq a b hab]
    add := fun a a' b b' ha hb => by rw [heq ha, heq hb]; exact .refl _
    mul := fun a a' b b' ha hb => by rw [heq ha, heq hb]; exact .refl _
    one_mul_one := by rw [h.one_mul_one]; exact .refl _
    identity_mul_identity := by rw [h.identity_mul_identity]; exact .refl _ }

namespace Scene

variable {s s' s₀ : Scene R} {id j p u : NodeId} {n : Node R} {flags : Flags} {k H : Nat}
  {told told' marked marked' : NodeId → Prop}

/-- A way from nodes to their parents and to their subscribers, with the number of the latter. -/
inductive Route (s : Scene R) : Nat → NodeId → NodeId → Prop where
  | refl (id : NodeId) : Route s 0 id id
  | parent {k : Nat} {id p u : NodeId} (hp : s.parent? id = some p) (h : Route s k p u) :
      Route s k id u
  | subscriber {k : Nat} {id u : NodeId} {n : Node R} {l : Link} (hn : s.node? id = some n)
      (hl : l ∈ n.subscribers) (h : Route s k l.node u) : Route s (k + 1) id u

theorem Route.of_above (h : s.Above j id) (hroute : s.Route k j u) : s.Route k id u := by
  induction h using Relation.ReflTransGen.head_induction_on with
  | refl => exact hroute
  | head hp _ ih => exact .parent hp ih

/-- A measure that no edge raises, and that falls from a node to its subscribers, bounds routes. -/
theorem Route.le_of_measure (measure : NodeId → Nat)
    (hparent : ∀ ⦃id p⦄, s.parent? id = some p → measure p ≤ measure id)
    (hsubscriber : ∀ ⦃id n⦄, s.node? id = some n → ∀ l ∈ n.subscribers,
      measure l.node < measure id) (h : s.Route k id u) : k ≤ measure id := by
  induction h with
  | refl => exact Nat.zero_le _
  | parent hp _ ih => exact Nat.le_trans ih (hparent hp)
  | subscriber hn hl _ ih => exact Nat.lt_of_le_of_lt ih (hsubscriber hn _ hl)

variable [Scalar R]

/-! ## Calm scenes -/

/-- Telling nodes of `told` marks nodes of `marked`: the subscribers, and what is above these. -/
def Rouses (s₀ : Scene R) (told marked : NodeId → Prop) : Prop :=
  ∀ ⦃id n⦄, s₀.node? id = some n → told id →
    ∀ l ∈ n.subscribers, ∀ ⦃j⦄, s₀.Above j l.node → marked j

/-- The scene is aligned and differs from `s₀` only in what updates change.  The nodes with news are
of `told`, and stale nodes of `marked`. -/
structure Calm (s₀ : Scene R) (told marked : NodeId → Prop) (s : Scene R) : Prop where
  sound : s.Sound
  root : s.root = s₀.root
  slots : s.nodes.slots.size = s₀.nodes.slots.size
  same : Agree (fun n => (n.raw, n.subscribers)) s₀ s
  aligned : s.Aligned
  news : ∀ ⦃j⦄, s.News j → told j
  stale : ∀ ⦃j⦄, s.Stale j → marked j

namespace Calm

theorem parent?_eq (h : Calm s₀ told marked s) (id : NodeId) : s.parent? id = s₀.parent? id :=
  parent?_eq_of_agree (h.same.map fun part => part.1.2.2.2.2.1) id

theorem of_stays (h : Calm s₀ told marked s) (hs' : s'.Sound) (hstays : Stays s s')
    (hagree : Agree (fun n => ((n.raw, n.subscribers), n.raw, n.caches)) s s')
    (hnews : ∀ ⦃j⦄, s'.News j → s.News j)
    (hstale : ∀ ⦃j⦄, s'.Stale j → s.Stale j ∨ marked j) : Calm s₀ told marked s' where
  sound := hs'
  root := hstays.root.trans h.root
  slots := hstays.slots.trans h.slots
  same := h.same.trans (hagree.map Prod.fst)
  aligned := h.aligned.of_agree h.sound.tree hs'.tree (hagree.map Prod.snd)
  news _ hj := h.news (hnews hj)
  stale _ hj := (hstale hj).elim (fun hj => h.stale hj) id

theorem of_nodes_eq (h : Calm s₀ told marked s) (hnodes : s'.nodes = s.nodes)
    (hroot : s'.root = s.root) : Calm s₀ told marked s' := by
  have hnode : ∀ id, s'.node? id = s.node? id := fun id => by rw [node?, node?, hnodes]
  refine h.of_stays (h.sound.of_nodes_eq hnodes hroot) ⟨hroot, by rw [hnodes], ?_⟩
    (.of_node?_eq hnode) (fun j hj => ?_) fun j hj => .inl ?_
  · rw [hnodes]
    exact id
  · rwa [News, hnode] at hj
  · rwa [Stale, hnode] at hj

theorem hush (h : Calm s₀ told marked s) (id : NodeId) : Calm s₀ told marked (s.hush id) :=
  h.of_stays (h.sound.hush id) (stays_modify s id _) (agree_hush (fun _ _ => rfl) s id)
    (fun _ hj => (news_hush_iff.1 hj).2)
    fun _ hj => .inl ((stale_iff_of_agree (agree_hush (fun _ _ => rfl) s id)).1 hj)

/-- Marks climb along parents only. -/
theorem touch (h : Calm s₀ told marked s) (hid : ∀ ⦃j⦄, s₀.Above j id → marked j)
    (flags : Flags) : Calm s₀ told marked (s.touch id flags) := by
  have hchanged : Agree Node.changed s (s.touch id flags) := agree_touch (fun _ _ => rfl) s id flags
  refine h.of_stays (h.sound.touch id flags) (stays_touch s id flags)
    (agree_touch (fun _ _ => rfl) s id flags) (fun j hj => ?_) fun j hj => ?_
  · obtain ⟨n', hn', hne⟩ := hj
    obtain ⟨n, hn, heq⟩ := hchanged.symm.node? hn'
    exact ⟨n, hn, heq ▸ hne⟩
  · by_cases hup : s.Above j id
    · refine .inr (hid (hup.mono fun c p hp => ?_))
      rwa [h.parent?_eq] at hp
    · obtain ⟨n', hn', hstale⟩ := hj
      rw [h.sound.rising.node?_touch_of_not_above h.sound.tree.grounded hup] at hn'
      exact .inl ⟨n', hn', hstale⟩

theorem fits (h : Calm s₀ told marked s) (hfits : s₀.nodes.Fits) : s.nodes.Fits := by
  rw [Arena.Fits, h.slots]
  exact hfits

theorem numeric (h : Calm s₀ told marked s) (hnumeric : s₀.Numeric) : s.Numeric :=
  fun _ _ _ hc => hnumeric (hc.of_agree h.root (h.same.map Prod.fst))

end Calm

/-- A pass over a sound scene leaves a calm one, as far as its news go. -/
theorem Sound.calm_updatePass (hs : s.Sound) (hroot : s.root = s₀.root)
    (hslots : s.nodes.slots.size = s₀.nodes.slots.size)
    (hsame : Agree (fun n => (n.raw, n.subscribers)) s₀ s) (haligned : s.updatePass.Aligned)
    (hnews : ∀ ⦃j⦄, s.updatePass.News j → told j) : Calm s₀ told marked s.updatePass where
  sound := hs.updatePass
  root := (stays_updatePass s).root.trans hroot
  slots := (stays_updatePass s).slots.trans hslots
  same := hsame.trans (agree_updatePass (fun _ _ _ _ _ _ => rfl) s)
  aligned := haligned
  news := hnews
  stale := fun _ ⟨_, hn, hstale⟩ => absurd (hs.stale_updatePass hn) hstale

namespace Calm

open Scalar (Steady)

variable (hlaw : Steady R) (hnumeric : s₀.Numeric)
include hlaw hnumeric

/-- In a calm scene a pass visits stale nodes, and no news appear elsewhere. -/
theorem stale_of_news (h : Calm s₀ told marked s) (hj : s.updatePass.News j) :
    s.News j ∨ s.Stale j := by
  rcases h.sound.tree.news_updatePass_iff.1 hj with hnews | ⟨i, hvisit⟩
  · exact .inl hnews
  · exact .inr (h.aligned.stale_of_visit hlaw h.sound.tree (h.numeric hnumeric) hvisit)

theorem updatePass (h : Calm s₀ told marked s) (hnews : ∀ ⦃j⦄, s.News j ∨ marked j → told' j) :
    Calm s₀ told' marked' s.updatePass :=
  h.sound.calm_updatePass h.root h.slots h.same (h.aligned.poised.aligned_updatePass hlaw h.sound)
    fun _ hj => hnews ((h.stale_of_news hlaw hnumeric hj).imp_right fun hj => h.stale hj)

end Calm

end Scene

/-! ## Observers that mark nothing stale -/

namespace Stage

variable [Scalar R]

/-- Given one after the other, no command changes a node, except that scenes are brought up to
date. -/
def Gentle (l : Listener R ω) : List (Command R ω) → Stage R ω → Prop
  | [], _ => True
  | command :: commands, st =>
    (command.isUpdate = false → (st.perform l command).scene.nodes = st.scene.nodes) ∧
      Gentle l commands (st.perform l command)

end Stage

/-- Observers change no node, except that they bring scenes up to date. -/
structure Conduct.Gentle [Scalar R] (c : Conduct R ω) : Prop where
  modified : ∀ depth o id flags st, Stage.Gentle (c.listener depth) (c.modified o id flags st) st
  completed : ∀ depth o st, Stage.Gentle (c.listener depth) (c.completed o st) st

variable [Scalar R]

theorem Scene.Added.root {s s' : Scene R} {p : NodeId} {kind : Kind R} {freed : List NodeId}
    (h : Added s p kind s' freed) : s'.root = s.root := by
  have hinsert : (s.insertChild p (unlinked kind)).2.root = s.root := by
    simp only [insertChild, root_touch]
    rfl
  cases h with
  | refused => rfl
  | inserted => exact hinsert
  | linked _ _ hlink => exact (revised_linkClone hlink).revised.stays.root.trans hinsert
  | takenBack _ _ hremove => exact (stays_remove hremove).root.trans hinsert

/-- No command that is no update replaces the root. -/
theorem Stage.root_perform (l : Listener R ω) (st : Stage R ω) {command : Command R ω}
    (h : command.isUpdate = false) : (st.perform l command).scene.root = st.scene.root := by
  cases command with
  | edit e =>
    simp only [perform, edit]
    cases he : e.apply st.scene with
    | error e => rfl
    | ok s' => exact (revised_apply e he).stays.root
  | addChild parent kind => exact (added_addChild st.scene parent kind).root
  | remove id =>
    simp only [perform, Stage.remove]
    cases hrem : st.scene.remove id with
    | error e => rfl
    | ok result => exact (stays_remove hrem).root
  | settle | runPending => cases h
  | takeDamage | addObserver | removeObserver _ | record _ => rfl

/-- What observers do keeps scenes calm. -/
structure Listener.Calms (l : Listener R ω) (s₀ : Scene R) (told marked : NodeId → Prop) :
    Prop where
  modified : ∀ o id flags st, Calm s₀ told marked st.scene →
    Calm s₀ told marked (l.modified o id flags st).scene
  completed : ∀ o st, Calm s₀ told marked st.scene → Calm s₀ told marked (l.completed o st).scene

namespace Listener.Calms

open Stage

variable {l : Listener R ω} {s₀ : Scene R} {told marked : NodeId → Prop} {id : NodeId}

theorem dispatch {tell : ObserverId → Stage R ω → Stage R ω}
    (h : ∀ o st, Calm s₀ told marked st.scene → Calm s₀ told marked (tell o st).scene)
    {st : Stage R ω} (hst : Calm s₀ told marked st.scene) :
    Calm s₀ told marked (st.dispatch tell).scene := by
  have hfold : ∀ (os : List ObserverId) (st : Stage R ω), Calm s₀ told marked st.scene →
      Calm s₀ told marked (os.foldl (fun st o => tell o st) st).scene := fun os st hst =>
    os.foldlRecOn (motive := fun st : Stage R ω => Calm s₀ told marked st.scene) _ hst
      fun st hst o _ => h o st hst
  exact hfold st.observers { st with observers := [] } hst

section

variable (hl : l.Calms s₀ told marked) (hrouses : s₀.Rouses told marked)
include hl hrouses

/-- Telling a node that has news keeps a scene calm: only its subscribers are marked. -/
theorem notify {st : Stage R ω} (hst : Calm s₀ told marked st.scene) (hid : told id)
    (flags : Flags) : Calm s₀ told marked (Stage.notify l st id flags).scene := by
  rw [Stage.notify]
  split
  · exact hst
  next n hn =>
    obtain ⟨n₀, hn₀, heq⟩ := hst.same.symm.node? hn
    have hsubscribers : n₀.subscribers = n.subscribers := congrArg Prod.snd heq
    refine dispatch (fun o st => hl.modified o id flags st) ?_
    refine n.subscribers.foldlRecOn (motive := fun s => Calm s₀ told marked s) _ hst
      fun s hs l hl => ?_
    exact hs.touch (hrouses hn₀ hid l (hsubscribers ▸ hl)) _

/-- So does telling a whole subtree, since only nodes with news are told. -/
theorem notifySubtree :
    ∀ (levels : Nat) (id : NodeId) {st : Stage R ω}, Calm s₀ told marked st.scene →
      Calm s₀ told marked (Stage.notifySubtree l levels id st).scene := by
  intro levels
  induction levels with
  | zero => exact fun _ _ hst => hst
  | succ levels ih =>
    intro id st hst
    rw [Stage.notifySubtree]
    split
    · exact hst
    next n hn =>
      dsimp only
      split
      · exact hst
      next hchanged =>
        have hid : told id :=
          hst.news ⟨n, hn, fun hempty => hchanged (Flags.isEmpty_iff.2 hempty)⟩
        have hchildren : Calm s₀ told marked (n.children.foldl
            (fun st c => Stage.notifySubtree l levels c st)
            { st with scene := st.scene.hush id }).scene :=
          n.children.foldlRecOn (motive := fun st : Stage R ω => Calm s₀ told marked st.scene) _
            (hst.hush id)
            fun st hst c _ => ih c hst
        exact hl.notify hrouses hchildren hid n.changed

/-- After a pass that leaves the scene calm, observers are told and it stays so. -/
theorem pass {st : Stage R ω} (hst : Calm s₀ told marked st.scene.updatePass) :
    Calm s₀ told marked (Stage.pass l st).scene := by
  have hwalk : Calm s₀ told marked
      (notifyPass l { st with scene := st.scene.updatePass }).scene :=
    hl.notifySubtree hrouses _ _ hst
  exact (dispatch hl.completed hwalk).of_nodes_eq rfl rfl

variable (hlaw : Scalar.Steady R) (hnumeric : s₀.Numeric) (hsub : ∀ ⦃j⦄, marked j → told j)
include hlaw hnumeric hsub

/-- A calm scene stays so while passes are repeated. -/
theorem settleWithin :
    ∀ (limit : Nat) {st : Stage R ω}, Calm s₀ told marked st.scene →
      Calm s₀ told marked (Stage.settleWithin l limit st).2.scene := by
  intro limit
  induction limit with
  | zero =>
    intro st hst
    rw [Stage.settleWithin]
    split <;> exact hst
  | succ limit ih =>
    intro st hst
    rw [Stage.settleWithin]
    split
    · refine ih (hl.pass hrouses (hst.updatePass hlaw hnumeric fun j hj => ?_))
      exact hj.elim (fun hj => hst.news hj) fun hj => hsub hj
    · exact hst

theorem settle {st : Stage R ω} (hst : Calm s₀ told marked st.scene) :
    Calm s₀ told marked (Stage.settle l st).2.scene := by
  have hpasses := hl.settleWithin hrouses hlaw hnumeric hsub st.scene.maxPasses hst
  simp only [Stage.settle]
  split <;> exact hpasses.of_nodes_eq rfl rfl

/-- Gentle commands keep a scene calm, as each changes no node or is an update. -/
theorem run :
    ∀ {commands : List (Command R ω)} {st : Stage R ω}, st.Gentle l commands →
      Calm s₀ told marked st.scene → Calm s₀ told marked (Stage.run l commands st).scene := by
  intro commands
  induction commands with
  | nil => exact fun _ hst => hst
  | cons command commands ih =>
    intro st hgentle hst
    obtain ⟨hcommand, hrest⟩ := hgentle
    refine ih hrest ?_
    cases hupdate : command.isUpdate with
    | false => exact hst.of_nodes_eq (hcommand hupdate) (root_perform l st hupdate)
    | true =>
      cases command with
      | settle => exact hl.settle hrouses hlaw hnumeric hsub hst
      | runPending =>
        simp only [perform, runPending]
        split
        · exact hst
        · exact hl.settle hrouses hlaw hnumeric hsub hst
      | edit _ | addChild _ _ | remove _ | takeDamage | addObserver | removeObserver _
        | record _ => cases hupdate

end

end Listener.Calms

theorem Conduct.gentle_silent : (Conduct.silent : Conduct R ω).Gentle :=
  ⟨fun _ _ _ _ _ => trivial, fun _ _ _ => trivial⟩

theorem Conduct.Gentle.calms {c : Conduct R ω} (hc : c.Gentle) (hlaw : Scalar.Steady R)
    {s₀ : Scene R} (hnumeric : s₀.Numeric) {told marked : NodeId → Prop}
    (hrouses : s₀.Rouses told marked) (hsub : ∀ ⦃j⦄, marked j → told j) :
    ∀ depth, (c.listener depth).Calms s₀ told marked := by
  intro depth
  induction depth with
  | zero => exact ⟨fun _ _ _ _ hst => hst, fun _ _ hst => hst⟩
  | succ depth ih =>
    exact ⟨fun o id flags st hst =>
        ih.run hrouses hlaw hnumeric hsub (hc.modified depth o id flags st) hst,
      fun o st hst => ih.run hrouses hlaw hnumeric hsub (hc.completed depth o st) hst⟩

/-! ## Settling -/

namespace Scene

omit [Scalar R]

/-- Routes from the node lead to at most `H` subscribers. -/
def Within (s₀ : Scene R) (H : Nat) (id : NodeId) : Prop :=
  ∀ ⦃k u⦄, s₀.Route k id u → k ≤ H

/-- Routes from the node lead to less than `H` subscribers. -/
def Below (s₀ : Scene R) (H : Nat) (id : NodeId) : Prop :=
  ∀ ⦃k u⦄, s₀.Route k id u → k < H

/-- Subscribers and what is above them have fewer subscribers ahead. -/
theorem rouses_within (s₀ : Scene R) (H : Nat) : s₀.Rouses (s₀.Within H) (s₀.Below H) :=
  fun _ _ hn hid _ hl _ hup _ _ hroute => hid (.subscriber hn hl (hroute.of_above hup))

end Scene

namespace Stage

variable {l : Listener R ω} {s₀ : Scene R}

omit [Scalar R] in
/-- A dirty root without news is stale. -/
theorem stale_root {s : Scene R} (hdirty : s.isDirty = true) (hquiet : ¬s.News s.root) :
    s.Stale s.root := by
  cases hn : s.node? s.root with
  | none => simp [isDirty, hn] at hdirty
  | some n =>
    refine ⟨n, hn, fun hstale => hquiet ⟨n, hn, fun hchanged => ?_⟩⟩
    rw [isDirty, hn, Option.any_some, Node.isDirty, hstale, hchanged] at hdirty
    cases hdirty

/-- After a pass nothing is left to tell that was not there before it. -/
theorem not_news_pass (hl : l.Orderly) {st : Stage R ω} (hs : st.scene.Sound)
    (hfits : (pass l st).scene.nodes.Fits) (hquiet : ∀ j, ¬st.scene.News j) (j : NodeId) :
    ¬(pass l st).scene.News j :=
  fun hj => hquiet j (((hl.evolves_pass st).quiets hfits hs).fades hj).1

/-- Each pass over a calm scene gets one step further. -/
theorem settleWithin_calm (hlaw : Scalar.Steady R) (hnumeric : s₀.Numeric) (hl : l.Orderly)
    (hcalms : ∀ H, l.Calms s₀ (s₀.Within H) (s₀.Below H)) (hfits : s₀.nodes.Fits) :
    ∀ (H : Nat) {limit : Nat} {st : Stage R ω}, Calm s₀ (s₀.Within H) (s₀.Below H) st.scene →
      (∀ j, ¬st.scene.News j) → H ≤ limit →
      ∃ k ≤ H, settleWithin l limit st = (true, (pass l)^[k] st) := by
  intro H
  induction H with
  | zero =>
    intro limit st hst hquiet _
    have hclean : st.scene.isDirty ≠ true := fun hdirty =>
      absurd (hst.stale (stale_root hdirty (hquiet _)) (.refl _)) (Nat.not_lt_zero _)
    exact ⟨0, Nat.le_refl _, settleWithin_clean hclean limit⟩
  | succ H ih =>
    intro limit st hst hquiet hlimit
    by_cases hdirty : st.scene.isDirty = true
    · obtain ⟨limit, rfl⟩ : ∃ m, limit = m + 1 := ⟨limit - 1, by omega⟩
      have hpass : Calm s₀ (s₀.Within H) (s₀.Below H) (pass l st).scene := by
        refine (hcalms H).pass (rouses_within s₀ H)
          (hst.updatePass hlaw hnumeric fun j hj => ?_)
        exact fun k u hroute =>
          hj.elim (fun hj => absurd hj (hquiet j)) fun hj => Nat.le_of_lt_succ (hj hroute)
      have hquiet' := not_news_pass hl hst.sound (hpass.fits hfits) hquiet
      obtain ⟨k, hk, hsettle⟩ := ih hpass hquiet' (Nat.le_of_succ_le_succ hlimit)
      refine ⟨k + 1, Nat.succ_le_succ hk, ?_⟩
      rw [settleWithin_dirty hdirty, hsettle, Function.iterate_succ_apply]
    · exact ⟨0, Nat.zero_le _, settleWithin_clean hdirty _⟩

/-- The first pass makes a poised scene calm, and each pass after it gets one step further. -/
theorem settleWithin_converges (hlaw : Scalar.Steady R) {c : Conduct R ω} (hc : c.Gentle)
    (depth : Nat) {st : Stage R ω} (hs : st.scene.Sound) (hquiet : ∀ j, ¬st.scene.News j)
    (hpoised : st.scene.Poised) (hfits : st.scene.nodes.Fits) (hnumeric : st.scene.Numeric)
    {L limit : Nat} (hroutes : ∀ ⦃k id u⦄, st.scene.Route k id u → k ≤ L) (hlimit : L + 1 ≤ limit) :
    ∃ k ≤ L + 1, settleWithin (c.listener depth) limit st =
      (true, (pass (c.listener depth))^[k] st) := by
  by_cases hdirty : st.scene.isDirty = true
  · obtain ⟨limit, rfl⟩ : ∃ m, limit = m + 1 := ⟨limit - 1, by omega⟩
    have hcalms : ∀ H, (c.listener depth).Calms st.scene (st.scene.Within H) (st.scene.Below H) :=
      fun H => hc.calms hlaw hnumeric (rouses_within st.scene H)
        (fun _ hj _ _ hroute => Nat.le_of_lt (hj hroute)) depth
    have hpass : Calm st.scene (st.scene.Within L) (st.scene.Below L)
        (pass (c.listener depth) st).scene := (hcalms L).pass (rouses_within st.scene L)
      (hs.calm_updatePass rfl rfl (.refl _ _) (hpoised.aligned_updatePass hlaw hs)
        fun _ _ _ _ hroute => hroutes hroute)
    have hquiet' := not_news_pass (c.orderly depth) hs (hpass.fits hfits) hquiet
    obtain ⟨k, hk, hsettle⟩ := settleWithin_calm hlaw hnumeric (c.orderly depth) hcalms hfits L
      hpass hquiet' (Nat.le_of_succ_le_succ hlimit)
    refine ⟨k + 1, Nat.succ_le_succ hk, ?_⟩
    rw [settleWithin_dirty hdirty, hsettle, Function.iterate_succ_apply]
  · exact ⟨0, Nat.zero_le _, settleWithin_clean hdirty _⟩

/-- If no route leads to more than `L` subscribers, and that many passes and one more are allowed,
then an update settles within them.  Observers may do anything but change nodes, before the update
even that. -/
theorem settle_converges (hlaw : Scalar.Steady R) {c : Conduct R ω} (hc : c.Gentle) (depth : Nat)
    {st : Stage R ω} (hreach : st.scene.Reachable) (hfits : st.scene.nodes.Fits)
    (hnumeric : st.scene.Numeric) {L : Nat}
    (hroutes : ∀ ⦃k id u⦄, st.scene.Route k id u → k ≤ L) (hlimit : L + 1 ≤ st.scene.maxPasses) :
    ∃ k ≤ L + 1, settle (c.listener depth) st =
      (.ok (), { (pass (c.listener depth))^[k] st with scene.pending := none }) := by
  obtain ⟨k, hk, hsettle⟩ := settleWithin_converges hlaw hc depth (hreach.sound hfits)
    (hreach.not_news hfits) (hreach.poised hlaw hfits) hfits hnumeric hroutes hlimit
  refine ⟨k, hk, ?_⟩
  simp only [settle, hsettle, if_pos]

/-! ## A clone of a clone -/

/-- A line, a clone of it and a clone of the clone, and the line moved after an update. -/
def echoed : Stage Int Unit :=
  run (Conduct.silent.listener 0)
    [.addChild ⟨0, 0⟩ (.path [.moveTo ⟨0, 0⟩, .lineTo ⟨2, 1⟩]),
      .addChild ⟨0, 0⟩ (.clone (some ⟨1, 0⟩)), .addChild ⟨0, 0⟩ (.clone (some ⟨2, 0⟩)), .settle,
      .edit (.setTransform ⟨1, 0⟩ ⟨1, 0, 0, 1, 5, 7⟩)] (ofScene (Scene.new 3) ())

/-- A clone of a clone is two subscribers away from the line, so three passes are enough. -/
theorem settle_converges_echoed :
    ∃ k ≤ 3, settle (Conduct.silent.listener 0) echoed =
      (.ok (), { (pass (Conduct.silent.listener 0))^[k] echoed with scene.pending := none }) := by
  -- The line is shown by one clone, and that by another.
  let ahead : NodeId → Nat := fun id => if id.index.toNat = 0 then 0 else 3 - id.index.toNat
  have hfits : echoed.scene.nodes.Fits := by decide +kernel
  have hahead : ∀ e ∈ echoed.scene.nodes.toList, (∀ p ∈ e.2.parent, ahead p ≤ ahead e.1) ∧
      ∀ l ∈ e.2.subscribers, ahead l.node < ahead e.1 := by
    decide +kernel
  have hentry : ∀ {id n}, echoed.scene.node? id = some n → (id, n) ∈ echoed.scene.nodes.toList :=
    fun hn => (Arena.mem_toList hfits).2 hn
  refine settle_converges (Scalar.exact_integers.steady fun a => beq_self_eq_true a)
    Conduct.gentle_silent 0
    ⟨Unit, Conduct.silent, 0, 3, (), _, rfl⟩ hfits
    (fun _ _ _ _ => ⟨by simp [Affine.beq_iff], beq_self_eq_true _⟩) (fun k id u hroute => ?_)
    (Nat.le_refl 3)
  · refine Nat.le_trans (hroute.le_of_measure ahead (fun id p hp => ?_)
      fun id n hn => (hahead _ (hentry hn)).2) ?_
    · obtain ⟨n, hn, hparent⟩ := parent?_eq_some_iff.1 hp
      exact (hahead _ (hentry hn)).1 p hparent
    · show ahead id ≤ 2
      simp only [ahead]
      split <;> omega

end Stage

end Freehand
