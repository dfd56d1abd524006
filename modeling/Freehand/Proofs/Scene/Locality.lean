import Freehand.Proofs.Scene.Coverage
import Freehand.Proofs.Scene.Renewal
import Freehand.Proofs.Scene.Settled

/-!
# Damage is local

After a change of one node an update recomputes that node, what is below it and what is above it,
and then what references any of these, directly or not.

* The first pass visits nodes below the changed one and above it.  What is above it hands nothing
  down, so only the marks of the change are recomputed there (`RevisedAt.visit_cases`).
* The later passes visit nodes that *follow*: from these a way down through children and through
  references leads to the changed node, or to one above or below it, and at least one reference is
  on the way (`Scene.Follows`).
* So an update damages nothing but boxes of the nodes below the changed one and of those that
  follow.  If the change is one of style it also damages the groups above the node
  (`Conduct.damage_local`), with all that is in them (`Conduct.not_damage_local`): the marks of a
  node are put on everything above it, and a group is repainted when its style is marked.
-/

namespace Freehand

open Scene
open Rect (Covers)
open Relation (ReflTransGen)

variable {R ω : Type}

/-- Where all scalars are numbers, placing composes nothing else. -/
theorem Scalar.Ordered.numeric [Scalar R] (h : Scalar.Ordered R) (s : Scene R) : s.Numeric :=
  fun _ _ o _ => ⟨Affine.beq_iff.2 ⟨h.number _, h.number _, h.number _, h.number _, h.number _,
    h.number _⟩, h.number o⟩

namespace Scene

variable {s s' : Scene R} {a b id j x : NodeId} {n n' : Node R} {flags : Flags}

/-! ## Nodes that follow a change -/

/-- The node is above `x` or below it. -/
def Near (s : Scene R) (x j : NodeId) : Prop :=
  s.Above j x ∨ s.Above x j

/-- A way down through children and references leads from the node to `x`, or to one above or below
it, and a reference is on the way. -/
def Follows (s : Scene R) (x j : NodeId) : Prop :=
  ∃ u v r z, ReflTransGen s.Needs j u ∧ s.held? u r = some v ∧ ReflTransGen s.Needs v z ∧
    s.Near x z

theorem held?_eq_of_raw (h : Agree Node.raw s s') (o : NodeId) (r : Role) :
    s'.held? o r = s.held? o r := by
  refine held?_eq_of_agree ?_ o
  cases r with
  | cloneSource => exact h.map fun raw => raw.1.source?
  | fillServer => exact h.map fun raw => raw.2.2.2.1.fill.server?
  | strokeServer => exact h.map fun raw => raw.2.2.2.1.stroke.server?

theorem needs_iff_of_raw (hs : s.Sound) (hs' : s'.Sound) (h : Agree Node.raw s s') :
    s'.Needs a b ↔ s.Needs a b := by
  rw [hs.needs_iff, hs'.needs_iff, parent?_eq_of_agree (h.map fun raw => raw.2.2.2.2.1)]
  simp only [held?_eq_of_raw h]

theorem follows_iff_of_raw (hs : s.Sound) (hs' : s'.Sound) (h : Agree Node.raw s s') :
    s'.Follows x j ↔ s.Follows x j := by
  have hneeds : s'.Needs = s.Needs := funext fun a => funext fun b =>
    propext (needs_iff_of_raw hs hs' h)
  have habove : ∀ {a b}, s'.Above a b ↔ s.Above a b :=
    above_iff_of_agree (h.map fun raw => raw.2.2.2.2.1)
  simp only [Follows, Near, hneeds, held?_eq_of_raw h, habove]

theorem Sound.needs_of_above (h : s.Sound) (hup : s.Above a b) : ReflTransGen s.Needs a b :=
  ReflTransGen.mono (fun _ _ hleads => .inl hleads) _ _ (h.tree.reaches_of_above hup)

/-- When nodes near the change are told, or nodes that follow it, those marked follow it. -/
theorem Sound.rouses_follows (h : s.Sound) (x : NodeId) :
    s.Rouses (fun v => s.Near x v ∨ s.Follows x v) (s.Follows x) := by
  intro v n hn hv l hl j hup
  obtain ⟨-, hheld⟩ := (h.linked.mem_subscribers hn l.node l.role).1 hl
  have hway := h.needs_of_above hup
  rcases hv with hnear | ⟨u, w, r, z, hvu, hheld', hwz, hnear⟩
  · exact ⟨l.node, v, l.role, v, hway, hheld, .refl, hnear⟩
  · have hlv : s.Needs l.node v := h.needs_iff.2 (.inr ⟨_, hheld⟩)
    exact ⟨u, w, r, z, (hway.tail hlv).trans hvu, hheld', hwz, hnear⟩

/-! ## The first pass -/

variable [Scalar R] {i : Inherited R}

namespace RevisedAt

variable (hlaw : Scalar.Steady R) (hnumeric : s'.Numeric) (h : RevisedAt s x flags s')
  (hs : s.Sound) (hpoised : s.Poised)
  (hclean : ∀ ⦃id n⦄, s.node? id = some n → n.stale = ∅)
  (hvisit : s'.Visit s'.root .atRoot j i)
include hlaw hnumeric h hs hpoised hclean hvisit

/-- The first pass visits what is below the changed node, and above it what is marked. -/
theorem visit_cases : s'.Above x j ∨ s'.Above j x ∧ i.flags = ∅ := by
  have hs' := hs.of_revised h.revised
  have hparents : Agree Node.parent s s' := h.place.map fun place => place.2.1
  have hstale : ∀ {j n'}, s'.node? j = some n' → n'.stale ≠ ∅ → s'.Above j x := by
    intro j n' hn' hne
    obtain ⟨n, hn, -⟩ := h.place.symm.node? hn'
    rcases h.stale_eq hs hn hn' with hsame | ⟨hup, -⟩
    · exact absurd (hsame.trans (hclean hn)) hne
    · exact (above_iff_of_agree hparents).2 hup
  induction hvisit with
  | top hn' hflags =>
    exact .inr ⟨hstale hn' fun hnone => hflags (by rw [hnone]; rfl), rfl⟩
  | @child p c m n' i' hp hm hn' hparent hflags ih =>
    have hpc : s'.parent? c = some p := (parent?_of_node? hn').trans hparent
    by_cases hbelow : s'.Above x p
    · exact .inl (hbelow.trans (.of_parent? hpc (.refl s' p)))
    · -- All above the parent is above the changed node, and is as it was.
      have hfit : ∀ a k, s'.Above a p → s'.node? a = some k → s'.Fitting k := by
        intro a k' hap hk'
        obtain ⟨k, hk, -⟩ := h.place.symm.node? hk'
        have hax : a ≠ x := fun heq => hbelow (heq ▸ hap)
        exact (hpoised hk (hclean hk)).congr hs.tree hs'.tree h.revised.wears.edited.caches hk hk'
          (h.raw_eq hax hk hk')
      have hnone := hp.flags_below hlaw hs'.tree hnumeric hfit hm
      refine .inr ⟨hstale hn' fun hnone' => hflags ?_, hnone⟩
      rw [hnone', hnone]
      rfl

/-- Above the changed node it repaints groups, if the change is one of style. -/
theorem painted_cases (hn' : s'.node? j = some n')
    (hpaints : n'.kind.isGroup = false ∨ (n'.stale ∪ i.flags).style = true) :
    s'.Above x j ∨ flags.style = true ∧ s'.Above j x := by
  rcases h.visit_cases hlaw hnumeric hs hpoised hclean hvisit with hbelow | ⟨hup, hnone⟩
  · exact .inl hbelow
  · by_cases hxj : x = j
    · exact .inl (hxj ▸ .refl s' x)
    · refine .inr ⟨?_, hup⟩
      have hs' := hs.of_revised h.revised
      obtain ⟨c, hc, -⟩ := hup.exists_child hxj
      obtain ⟨k, hk, hgroup, -⟩ := hs'.tree.node?_of_parent? hc
      rw [hn'] at hk
      cases hk
      have hstyle := hpaints.resolve_left (by rw [hgroup]; exact nofun)
      rw [hnone, Flags.style_union] at hstyle
      obtain ⟨n, hn, -⟩ := h.place.symm.node? hn'
      rcases h.stale_eq hs hn hn' with hsame | ⟨-, hmarked⟩
      · rw [hsame, hclean hn] at hstyle
        cases hstyle
      · rw [hmarked, hclean hn] at hstyle
        have hempty : (∅ : Flags).style = false := rfl
        simpa [hempty] using hstyle

end RevisedAt

end Scene

/-! ## Updates after a change -/

namespace Listener.Passive

open Stage

variable [Scalar R] {l : Listener R ω}

theorem proceeds_settleWithin (hl : l.Passive) (limit : Nat) (st : Stage R ω) :
    Proceeds st.scene (settleWithin l limit st).2.scene :=
  cumulative_proceeds.settleWithin hl.proceeds_pass limit st

omit [Scalar R] in
theorem calms (hl : l.Passive) (s₀ : Scene R) [Scalar R] (told marked : NodeId → Prop) :
    l.Calms s₀ told marked :=
  ⟨fun o id flags st hst => by rwa [hl.modified], fun o st hst => by rwa [hl.completed]⟩

variable {s₀ b : Scene R} {x : NodeId} {flags : Flags} {area : Option (Rect R)}
  (hl : l.Passive) (hlaw : Scalar.Ordered R) (hs₀ : s₀.Sound) (henclosing : s₀.Enclosing)
  (hclean : ∀ ⦃id n⦄, s₀.node? id = some n → n.stale = ∅) (hrev : RevisedAt s₀ x flags b)
  (hx : ∀ n, s₀.node? x = some n → Covers area n.box)
include hl hlaw hs₀ henclosing hclean hrev hx

theorem covers_pass {st : Stage R ω} {t : Scene R} (h : Proceeds b st.scene)
    (hend : Proceeds (pass l st).scene t) (hquiet : ∀ j, ¬st.scene.News j)
    (hdamage : Covers area st.scene.damage)
    (hpainted : ∀ ⦃j i n⦄, st.scene.Visit st.scene.root .atRoot j i → st.scene.node? j = some n →
      n.kind.isGroup = false ∨ (n.stale ∪ i.flags).style = true →
      (∀ n₀, s₀.node? j = some n₀ → Covers area n₀.box) ∧
      ∀ n', t.node? j = some n' → Covers area n'.box) :
    Covers area (pass l st).scene.damage := by
  obtain ⟨htold, hsame⟩ := hl.proceeds_told st
  rw [hsame]
  exact h.covers_damage hlaw hs₀ henclosing hclean hrev hx (htold.trans hend) hquiet hdamage
    hpainted

variable (hsteady : Scalar.Steady R) (hfits : b.nodes.Fits)
include hsteady hfits

/-- Once the scene is calm, passes damage boxes of nodes that follow. -/
theorem covers_settleWithin :
    ∀ {limit : Nat} {st : Stage R ω},
      Calm b (fun v => b.Near x v ∨ b.Follows x v) (b.Follows x) st.scene →
      Proceeds b st.scene → (∀ j, ¬st.scene.News j) → Covers area st.scene.damage →
      (∀ j, b.Follows x j → (∀ n₀, s₀.node? j = some n₀ → Covers area n₀.box) ∧
        ∀ n, (settleWithin l limit st).2.scene.node? j = some n → Covers area n.box) →
      Covers area (settleWithin l limit st).2.scene.damage := by
  intro limit st hcalm hproceeds hquiet hdamage hfollows
  fun_induction settleWithin l limit st with
  | case1 st hdirty => exact hdamage
  | case2 st hdirty limit ih =>
    have hnumeric : st.scene.Numeric := hlaw.numeric st.scene
    have hpass : Calm b _ (b.Follows x) (pass l st).scene :=
      (hl.calms b _ _).pass ((hs₀.of_revised hrev.revised).rouses_follows x)
        (hcalm.updatePass hsteady (hlaw.numeric b) fun j hj => .inr (hj.resolve_left (hquiet j)))
    refine ih hpass (hproceeds.trans (hl.proceeds_pass st))
      (Stage.not_news_pass hl.orderly hcalm.sound (hpass.fits hfits) hquiet)
      (hl.covers_pass hlaw hs₀ henclosing hclean hrev hx hproceeds
        (hl.proceeds_settleWithin limit _) hquiet hdamage fun j i n hvisit hn _ => ?_) hfollows
    exact hfollows j
      (hcalm.stale (hcalm.aligned.stale_of_visit hsteady hcalm.sound.tree hnumeric hvisit))
  | case3 limit st hsettled => exact hdamage

/-- All in all an update damages boxes of nodes below the changed one and of nodes that follow it,
and of the groups above it if their styles were marked. -/
theorem covers_settleWithin_revised (hpoised : s₀.Poised) (hquiet : ∀ j, ¬b.News j)
    (hdamage : b.damage = none) {limit : Nat} {st : Stage R ω} (hst : st.scene = b)
    (hboxes : ∀ j, b.Above x j ∨ b.Follows x j ∨ (flags.style = true ∧ b.Above j x) →
      (∀ n₀, s₀.node? j = some n₀ → Covers area n₀.box) ∧
      ∀ n, (settleWithin l limit st).2.scene.node? j = some n → Covers area n.box) :
    Covers area (settleWithin l limit st).2.scene.damage := by
  subst hst
  have hs := hs₀.of_revised hrev.revised
  have hnone : Covers area st.scene.damage := by
    rw [hdamage]
    exact .none area
  by_cases hdirty : st.scene.isDirty = true
  · cases limit with
    | zero =>
      rw [settleWithin, if_pos hdirty]
      exact hnone
    | succ limit =>
      rw [settleWithin_dirty hdirty] at hboxes ⊢
      have hcalm : Calm st.scene _ (st.scene.Follows x) (pass l st).scene :=
        (hl.calms st.scene _ _).pass (hs.rouses_follows x)
          (hs.calm_updatePass rfl rfl (.refl _ _)
            ((hpoised.of_edited hs₀ hs hrev.revised.wears.edited).aligned_updatePass hsteady hs)
            fun j hj => ?_)
      · refine hl.covers_settleWithin hlaw hs₀ henclosing hclean hrev hx hsteady hfits hcalm
          (hl.proceeds_pass st) (Stage.not_news_pass hl.orderly hs (hcalm.fits hfits) hquiet)
          (hl.covers_pass hlaw hs₀ henclosing hclean hrev hx (.refl _)
            (hl.proceeds_settleWithin limit _) hquiet hnone fun j i n hvisit hn hpaints => ?_)
          fun j hj => hboxes j (.inr (.inl hj))
        exact hboxes j ((hrev.painted_cases hsteady (hlaw.numeric _) hs₀ hpoised hclean hvisit hn
          hpaints).imp_right .inr)
      · rcases hs.tree.news_updatePass_iff.1 hj with hnews | ⟨i, hvisit⟩
        · exact absurd hnews (hquiet j)
        · rcases hrev.visit_cases hsteady (hlaw.numeric _) hs₀ hpoised hclean hvisit with
            hbelow | ⟨hup, -⟩
          · exact .inl (.inr hbelow)
          · exact .inl (.inl hup)
  · rw [settleWithin_clean hdirty]
    exact hnone

end Listener.Passive

theorem Stage.scene_settle [Scalar R] (l : Listener R ω) (st : Stage R ω) :
    (settle l st).2.scene.nodes = (settleWithin l st.scene.maxPasses st).2.scene.nodes ∧
      (settle l st).2.scene.damage = (settleWithin l st.scene.maxPasses st).2.scene.damage := by
  simp only [settle]
  split <;> exact ⟨rfl, rfl⟩

/-- After a change of one node in a settled scene whose damage was taken, an update damages nothing
but the boxes, old and new, of the node, of what is below it and of what follows it, and if the
change is one of style those of the groups above it, whether or not the update settles. -/
theorem Conduct.damage_local [Scalar R] (hlaw : Scalar.Ordered R) (hsteady : Scalar.Steady R)
    {c : Conduct R ω} (hc : c.Records) (depth : Nat) {st₀ st : Stage R ω}
    (hreach : st₀.scene.Reachable) (hfits : st₀.scene.nodes.Fits)
    (hclean : st₀.scene.isDirty = false) (htaken : st₀.scene.damage = none) {e : Edit R}
    {s : Scene R} (he : e.apply st₀.scene = .ok s) {answer : Except UpdateError Unit}
    (hsettle : Stage.settle (c.listener depth) { st₀ with scene := s } = (answer, st))
    {area : Option (Rect R)}
    (harea : ∀ j, st.scene.Above e.subject j ∨ st.scene.Follows e.subject j ∨
        (e.flags.style = true ∧ st.scene.Above j e.subject) →
      (∀ n, st₀.scene.node? j = some n → Covers area n.box) ∧
      ∀ n, st.scene.node? j = some n → Covers area n.box) :
    Covers area st.scene.damage := by
  have hl := hc.passive depth
  have hrev := revisedAt_apply e he
  have hs₀ := hreach.sound hfits
  have hs := hs₀.of_revised hrev.revised
  have hstale : ∀ ⦃id n⦄, st₀.scene.node? id = some n → n.stale = ∅ :=
    fun _ _ hn => hs₀.stale_of_not_isDirty hclean hn
  have hquiet : ∀ j, ¬s.News j := fun j hj =>
    hreach.not_news hfits j ((hrev.revised.evolves.quiets
      (by rw [Arena.Fits, hrev.revised.stays.slots]; exact hfits) hs₀).fades hj).1
  have hproceeds := cumulative_proceeds.settle hl.proceeds_pass { st₀ with scene := s }
  obtain ⟨hnodes, hdamage⟩ := Stage.scene_settle (c.listener depth) { st₀ with scene := s }
  rw [hsettle] at hproceeds hnodes hdamage
  have habove : ∀ {a b}, st.scene.Above a b ↔ s.Above a b :=
    above_iff_of_agree (hproceeds.raw.map fun raw => raw.2.2.2.2.1)
  have hfollows : ∀ {j}, st.scene.Follows e.subject j ↔ s.Follows e.subject j :=
    follows_iff_of_raw hs (hproceeds.sound hs) hproceeds.raw
  simp only [habove, hfollows] at harea
  rw [hdamage]
  refine hl.covers_settleWithin_revised hlaw hs₀ (hreach.enclosing hlaw hfits) hstale hrev
    (harea e.subject (.inl (.refl s _))).1 hsteady
    (by rw [Arena.Fits, hrev.revised.stays.slots]; exact hfits) (hreach.poised hsteady hfits) hquiet
    (hrev.revised.prompts.damage.trans htaken) rfl fun j hj => ?_
  refine ⟨(harea j hj).1, fun n hn => (harea j hj).2 n ?_⟩
  rw [node?, hnodes]
  exact hn

/-! ## Two lines in a group -/

namespace Scene

/-- Below a node that is no group there is nothing. -/
theorem Tree.eq_of_above {s : Scene R} (h : s.Tree) {id j : NodeId} {n : Node R}
    (hn : s.node? id = some n) (hgroup : n.kind.isGroup = false) (hup : s.Above id j) : j = id := by
  by_contra hne
  obtain ⟨c, hc, -⟩ := hup.exists_child hne
  obtain ⟨m, hm, hgroup', -⟩ := h.node?_of_parent? hc
  rw [hn] at hm
  cases hm
  rw [hgroup] at hgroup'
  cases hgroup'

/-- Where no node references another one, none follows. -/
theorem Sound.not_follows_of_all {s : Scene R} (h : s.Sound) (hfits : s.nodes.Fits)
    (hall : (s.nodes.toList.all fun y => y.2.references.isEmpty) = true) (x j : NodeId) :
    ¬s.Follows x j := by
  rintro ⟨u, v, r, z, -, hheld, -⟩
  obtain ⟨n, hn, -⟩ := Option.bind_eq_some_iff.1 hheld
  have hempty := List.all_eq_true.1 hall (u, n) ((Arena.mem_toList hfits).2 hn)
  have hin := (h.linked.holds_iff hn v r).1 hheld
  rw [List.isEmpty_iff.1 hempty] at hin
  cases hin

end Scene

namespace Stage

/-- Two lines in a group after an update, and the damage taken. -/
def paired : Stage Int Unit :=
  run (Conduct.silent.listener 0)
    [.addChild ⟨0, 0⟩ (.group false), .addChild ⟨1, 0⟩ (.path [.moveTo ⟨0, 0⟩, .lineTo ⟨2, 1⟩]),
      .addChild ⟨1, 0⟩ (.path [.moveTo ⟨10, 10⟩, .lineTo ⟨12, 11⟩]), .settle, .takeDamage]
    (ofScene (Scene.new 16) ())

/-- The scene after a change. -/
def retouched (e : Edit Int) : Scene Int :=
  (Command.edit e : Command Int Unit).effect paired.scene

/-- What an update makes of that. -/
def repainted (e : Edit Int) : Except UpdateError Unit × Stage Int Unit :=
  settle (Conduct.silent.listener 0) { paired with scene := retouched e }

theorem reachable_paired : paired.scene.Reachable :=
  ⟨Unit, .silent, 0, 16, (), _, rfl⟩

theorem apply_paired {e : Edit Int} (hok : (e.apply paired.scene).toBool = true) :
    e.apply paired.scene = .ok (retouched e) := by
  obtain ⟨s, he⟩ := eq_ok_of_toBool hok
  rw [retouched, Command.effect, he]

theorem repainted_eq {e : Edit Int} (hok : (repainted e).1.toBool = true) :
    settle (Conduct.silent.listener 0) { paired with scene := retouched e } =
      (.ok (), (repainted e).2) := by
  obtain ⟨u, hanswer⟩ := eq_ok_of_toBool hok
  exact Prod.ext hanswer rfl

/-- After a change of the first line no other node is below it, and none follows.  So an area covers
all that is local if it covers the line as it was and as it is. -/
theorem covers_repainted {e : Edit Int} (hok : (e.apply paired.scene).toBool = true)
    (hfits : (repainted e).2.scene.nodes.Fits)
    (hline : ((repainted e).2.scene.node? ⟨2, 0⟩).any (fun n => !n.kind.isGroup) = true)
    (hall : ((repainted e).2.scene.nodes.toList.all fun y => y.2.references.isEmpty) = true)
    {area : Option (Rect Int)}
    (hold : (paired.scene.node? ⟨2, 0⟩).all (fun n => decide (Covers area n.box)) = true)
    (hnew : ((repainted e).2.scene.node? ⟨2, 0⟩).all (fun n => decide (Covers area n.box)) = true)
    {j : NodeId} (hj : (repainted e).2.scene.Above ⟨2, 0⟩ j ∨
      (repainted e).2.scene.Follows ⟨2, 0⟩ j) :
    (∀ n, paired.scene.node? j = some n → Covers area n.box) ∧
      ∀ n, (repainted e).2.scene.node? j = some n → Covers area n.box := by
  have hs := (reachable_paired.sound (by decide +kernel)).of_revised
    (revised_apply e (apply_paired hok))
  have hsettled : (repainted e).2.scene.Sound := (cumulative_proceeds.settle
    (Conduct.records_silent.passive 0).proceeds_pass { paired with scene := retouched e }).sound hs
  obtain rfl : j = ⟨2, 0⟩ := by
    rcases hj with hup | hfollows
    · obtain ⟨n, hn, hgroup⟩ := (Option.any_eq_true _ _).1 hline
      exact hsettled.tree.eq_of_above hn (by simpa using hgroup) hup
    · exact absurd hfollows (hsettled.not_follows_of_all hfits hall _ j)
  exact ⟨fun n hn => of_decide_eq_true ((Option.all_eq_true _ _).1 hold n hn),
    fun n hn => of_decide_eq_true ((Option.all_eq_true _ _).1 hnew n hn)⟩

end Stage

open Stage

/-- Moving a line repaints where it was and where it is. -/
theorem Conduct.damage_local_paired : Covers (some ⟨0, 0, 7, 8⟩)
    (repainted (.setTransform ⟨2, 0⟩ ⟨1, 0, 0, 1, 5, 7⟩)).2.scene.damage := by
  have hok : ((Edit.setTransform ⟨2, 0⟩ ⟨1, 0, 0, 1, 5, 7⟩).apply paired.scene).toBool = true := by
    decide +kernel
  refine damage_local Scalar.ordered_integers
    (Scalar.exact_integers.steady fun a => beq_self_eq_true a) Conduct.records_silent 0
    reachable_paired (by decide +kernel) (by decide +kernel) rfl (apply_paired hok) rfl
    fun j hj => covers_repainted hok (by decide +kernel) (by decide +kernel) (by decide +kernel)
      (by decide +kernel) (by decide +kernel) ?_
  rcases hj with hbelow | hfollows | ⟨hstyle, -⟩
  · exact .inl hbelow
  · exact .inr hfollows
  · cases hstyle

/-- A change of style repaints the whole group, though nothing else in it follows the line. -/
theorem Conduct.not_damage_local : ¬∀ (st₀ st : Stage Int Unit) (x : NodeId) (style : Style Int)
    (s : Scene Int) (area : Option (Rect Int)), st₀.scene.Reachable → st₀.scene.nodes.Fits →
      st₀.scene.isDirty = false → st₀.scene.damage = none → x ≠ st₀.scene.root →
      st₀.scene.setStyle x style = .ok s →
      settle (Conduct.silent.listener 0) { st₀ with scene := s } = (.ok (), st) →
      (∀ j, st.scene.Above x j ∨ st.scene.Follows x j →
        (∀ n, st₀.scene.node? j = some n → Covers area n.box) ∧
        ∀ n, st.scene.node? j = some n → Covers area n.box) →
      Covers area st.scene.damage := by
  intro hall
  have hok : ((Edit.setStyle ⟨2, 0⟩ ⟨.none, .none, 1, 1⟩).apply paired.scene).toBool = true := by
    decide +kernel
  have hsettled : (repainted (.setStyle ⟨2, 0⟩ ⟨.none, .none, 1, 1⟩)).1.toBool = true := by
    decide +kernel
  have hcovers : Covers (some ⟨0, 0, 2, 1⟩)
      (repainted (.setStyle ⟨2, 0⟩ ⟨.none, .none, 1, 1⟩)).2.scene.damage :=
    hall paired _ ⟨2, 0⟩ ⟨.none, .none, 1, 1⟩ _ (some ⟨0, 0, 2, 1⟩) reachable_paired
      (by decide +kernel) (by decide +kernel) rfl (by decide +kernel) (apply_paired hok)
      (repainted_eq hsettled) fun j hj => covers_repainted hok (by decide +kernel)
        (by decide +kernel) (by decide +kernel) (by decide +kernel) (by decide +kernel) hj
  exact absurd hcovers (by decide +kernel)

end Freehand
