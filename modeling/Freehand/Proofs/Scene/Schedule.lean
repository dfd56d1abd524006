import Freehand.Proofs.Scene.Course
import Freehand.Proofs.Scene.Exact
import Mathlib.Logic.Function.Iterate

/-!
# No update is lost

Tokens are handed out one after the other, each when no update is outstanding.  As long as something
is stale an update is outstanding, unless the last one was given up and nothing was asked for since
(`Scene.Accounted`).  This holds of every scene on a course, so also of those that observers see.

An update that settles leaves nothing stale.  It has told all news that it made, and leaves those
that an outer update, whose observers it was called by, has yet to tell.  An update is given up
after exactly as many passes as the scene allows, and leaves all marks in place.
-/

namespace Freehand

open Scene

variable {R ω : Type}

/-- The clock at the end of a journal that began at `start`. -/
def Journal.clock (start : Clock) (J : Journal R ω) : Clock :=
  match J.getLast? with
  | some e => e.scene.clock
  | none => start

theorem Journal.clock_append (start : Clock) (J : Journal R ω) (e : Entry R ω) :
    Journal.clock start (J ++ [e]) = e.scene.clock := by
  rw [Journal.clock, List.getLast?_append]
  rfl

/-- The last update was given up, when the token handed out last was `token`. -/
def Journal.GaveUp (J : Journal R ω) (token : Nat) : Prop :=
  ∃ pre e post, J = pre ++ e :: post ∧ (∃ error, e.answer? = some (.error error)) ∧
    (∀ f ∈ post, f.answer? = none) ∧ e.scene.lastToken = token

theorem Journal.GaveUp.append {J : Journal R ω} {token : Nat} (h : J.GaveUp token)
    {e : Entry R ω} (he : e.answer? = none) : Journal.GaveUp (J ++ [e]) token := by
  obtain ⟨pre, f, post, rfl, hf, hpost, htoken⟩ := h
  refine ⟨pre, f, post ++ [e], by rw [List.append_assoc, List.cons_append], hf, fun g hg => ?_,
    htoken⟩
  rcases List.mem_append.1 hg with hg | hg
  · exact hpost g hg
  · rw [List.mem_singleton.1 hg, he]

namespace Scene

variable {start : Clock} {s s' : Scene R} {J : Journal R ω} {e : Entry R ω}

/-! ## Every scene on the way -/

/-- The clock of the scene follows from the one that was noted last, tokens are counted, and what is
stale is asked for. -/
structure Accounted (start : Clock) (x : Scene R × Journal R ω) : Prop where
  rings : (Journal.clock start x.2).Rings x.1.clock
  counts : x.1.clock.Counts
  alert : ∀ ⦃id⦄, x.1.Stale id → x.1.pending ≠ none ∨ Journal.GaveUp x.2 x.1.lastToken

namespace Accounted

/-- A change that asks for an update, or leaves no new marks. -/
theorem of_rings (h : Accounted start (s, J)) (hrings : s.clock.Rings s'.clock)
    (halert : s'.pending = none → ∀ ⦃id⦄, s'.Stale id → s.Stale id) :
    Accounted start (s', J) := by
  refine ⟨h.rings.trans hrings, h.counts.of_rings hrings, fun id hid => ?_⟩
  by_cases hnone : s'.pending = none
  · have hclock : s'.clock = s.clock := hrings.eq_of_none hnone
    have hpending : s'.pending = s.pending := congrArg Clock.pending hclock
    have htoken : s'.lastToken = s.lastToken := congrArg Clock.lastToken hclock
    rw [hpending, htoken]
    exact h.alert (halert hnone hid)
  · exact .inl hnone

/-- Noting something else than an update. -/
theorem note (h : Accounted start (s, J)) (hscene : e.scene = s) (hanswer : e.answer? = none) :
    Accounted start (s, J ++ [e]) := by
  refine ⟨?_, h.counts, fun id hid => ?_⟩
  · rw [Journal.clock_append, hscene]
    exact .refl _
  · exact (h.alert hid).imp_right fun hgave => hgave.append hanswer

end Accounted

variable [Scalar R]

/-- A command that is no update asks for one, or it leaves no new marks. -/
theorem rings_effect (hs : s.Sound) (command : Command R ω)
    (hfits : (command.effect s).nodes.Fits) : s.clock.Rings (command.effect s).clock ∧
      ((command.effect s).pending = none →
        ∀ ⦃id⦄, (command.effect s).Stale id → s.Stale id) := by
  refine Command.effect_cases (motive := fun s s' => s.Sound → s'.nodes.Fits →
    s.clock.Rings s'.clock ∧ (s'.pending = none → ∀ ⦃id⦄, s'.Stale id → s.Stale id))
    (fun _ _ => ⟨.refl _, fun _ _ h => h⟩) (fun h _ _ => ⟨h.prompts.rings, h.prompts.alert⟩)
    (fun h hs hfits => ?_) (fun h _ _ => ?_) (fun _ _ => ⟨.refl _, fun _ _ h => h⟩) command hs hfits
  · obtain ⟨area, hprompts⟩ := h.prompts hs hfits
    exact ⟨hprompts.rings, hprompts.alert⟩
  · obtain ⟨n, -, hprompts⟩ := prompts_remove h
    exact ⟨hprompts.rings, hprompts.alert⟩

theorem clock_settleBox (s : Scene R) (id : NodeId) (flags : Flags) :
    (s.settleBox id flags).clock = s.clock := by
  simp only [settleBox]
  split
  · rfl
  · split <;> rfl

/-- Visits neither ask for an update nor take one back. -/
theorem clock_updateSubtree :
    ∀ (levels : Nat) (i : Inherited R) (id : NodeId) (s : Scene R),
      (updateSubtree levels i id s).clock = s.clock := by
  intro levels
  induction levels with
  | zero => exact fun _ _ _ => rfl
  | succ levels ih =>
    intro i id s
    rw [updateSubtree]
    split
    · rfl
    next n _ =>
      dsimp only
      split
      · rfl
      · rw [clock_settleBox]
        exact n.children.foldlRecOn (motive := fun t : Scene R => t.clock = s.clock) _ rfl
          fun t ht c _ => (ih (i.below n) c t).trans ht

theorem clock_updatePass (s : Scene R) : s.updatePass.clock = s.clock :=
  clock_updateSubtree _ _ _ s

/-- Every move keeps a scene accounted for: what marks nodes asks for an update, and what takes the
request back has cleaned them or given up. -/
theorem Accounted.move {x y : Scene R × Journal R ω} (h : Accounted start x) (hmove : Move x y)
    (hs : x.1.Sound) (hfits : y.1.nodes.Fits) : Accounted start y := by
  cases hmove with
  | began command => exact h.note rfl rfl
  | @marked s J id flags =>
    have hprompts := prompts_touch s id flags
    exact h.of_rings hprompts.rings hprompts.alert
  | @recomputed s J =>
    refine h.of_rings (.inl s.clock_updatePass) fun _ id hid => ?_
    obtain ⟨n, hn, hstale⟩ := hid
    exact absurd (hs.stale_updatePass hn) hstale
  | hushed id =>
    exact h.of_rings (.refl _) fun _ _ => (stale_iff_of_agree (agree_hush (fun _ _ => rfl) _ id)).1
  | counted => exact h.of_rings (.refl _) fun _ _ hid => hid
  | ended command =>
    obtain ⟨hrings, halert⟩ := rings_effect hs command hfits
    exact (h.of_rings hrings halert).note rfl rfl
  | @settled before s J command hbefore hevolves hclean =>
    refine ⟨?_, h.counts.stopped, fun id hid => ?_⟩
    · rw [Journal.clock_append]
      exact .refl _
    · obtain ⟨n, hn, hstale⟩ := hid
      exact absurd (hs.stale_of_not_isDirty hclean hn) hstale
  | @abandoned before s J command limit =>
    refine ⟨?_, h.counts.stopped, fun id hid => .inr ?_⟩
    · rw [Journal.clock_append]
      exact .refl _
    · exact ⟨J, _, [], rfl, ⟨_, rfl⟩, fun f hf => absurd hf List.not_mem_nil, rfl⟩

/-! ## Every entry -/

/-- What is noted of a scene that an update left: no update is outstanding, nothing is stale, and
only what was there before is left to be told. -/
structure Rested (before after : Scene R) : Prop where
  pending : after.pending = none
  stale : ∀ id, ¬after.Stale id
  news : ∀ ⦃id⦄, after.News id → before.News id

end Scene

/-- The clock of an entry follows from the one before, and an update that settles leaves the scene
at rest. -/
structure Entry.Fair (start : Clock) (pre : Journal R ω) (e : Entry R ω) : Prop where
  clock : ∃ k, (Journal.clock start pre).Rings k ∧
    e.scene.clock = if e.answer?.isSome then k.stopped else k
  rested : ∀ ⦃command before after⦄, e = .ended command before after (some (.ok ())) →
    Rested before after

namespace Scene

variable {start : Clock} [Scalar R]

/-- What a move notes is fair. -/
theorem Accounted.fair {x y : Scene R × Journal R ω} (h : Accounted start x)
    (hsounds : ∀ e ∈ x.2, e.scene.Sound) (hmove : Move x y) (hs : x.1.Sound)
    (hfits : y.1.nodes.Fits) :
    y.2 = x.2 ∨ ∃ e : Entry R ω, y = (e.scene, x.2 ++ [e]) ∧ e.Fair start x.2 := by
  cases hmove with
  | @began s J command =>
    refine .inr ⟨.began command s, rfl, ⟨s.clock, h.rings, rfl⟩, ?_⟩
    rintro _ _ _ ⟨⟩
  | marked | recomputed | hushed | counted => exact .inl rfl
  | @ended s J command =>
    have hrings := h.rings.trans (rings_effect hs command hfits).1
    refine .inr ⟨.ended command s (command.effect s) none, rfl, ⟨_, hrings, rfl⟩, ?_⟩
    rintro _ _ _ ⟨⟩
  | @settled before s J command hbefore hevolves hclean =>
    refine .inr ⟨.ended command before s.settled (some (.ok ())), rfl, ⟨s.clock, h.rings, rfl⟩, ?_⟩
    rintro _ _ _ ⟨⟩
    refine ⟨rfl, fun id ⟨n, hn, hstale⟩ => ?_, fun id hid => ?_⟩
    · exact hstale (hs.stale_of_not_isDirty hclean hn)
    · exact ((hevolves.quiets hfits (hsounds _ hbefore)).fades hid).1
  | @abandoned before s J command limit =>
    refine .inr ⟨.ended command before s.abandoned _, rfl, ⟨s.clock, h.rings, rfl⟩, ?_⟩
    rintro _ _ _ ⟨⟩

/-- The scene is accounted for, and what was noted on the way is fair. -/
structure Chronicled (start : Clock) (x : Scene R × Journal R ω) : Prop where
  accounted : Accounted start x
  sounds : ∀ e ∈ x.2, e.scene.Sound
  fair : ∀ ⦃pre e post⦄, x.2 = pre ++ e :: post → Entry.Fair start pre e

/-- A move adds one entry at most, which is fair. -/
theorem Chronicled.move {x y : Scene R × Journal R ω} (h : Chronicled start x) (hmove : Move x y)
    (hs : x.1.Sound) (hs' : y.1.Sound) (hfits : y.1.nodes.Fits) : Chronicled start y := by
  refine ⟨h.accounted.move hmove hs hfits, ?_, ?_⟩
  · rcases hmove.journal with hsame | ⟨e', rfl⟩
    · rw [hsame]
      exact h.sounds
    · intro e he
      rcases List.mem_append.1 he with he | he
      · exact h.sounds e he
      · rw [List.mem_singleton.1 he]
        exact hs'
  · rcases h.accounted.fair h.sounds hmove hs hfits with hsame | ⟨e', rfl, hfair'⟩
    · rw [hsame]
      exact h.fair
    · intro pre e post hJ
      rcases cases_of_append_singleton hJ with ⟨rfl, rfl, -⟩ | ⟨post', hbefore, -⟩
      · exact hfair'
      · exact h.fair hbefore

theorem Course.chronicled {x y : Scene R × Journal R ω} (h : Course x y) (hfits : y.1.nodes.Fits)
    (hs : x.1.Sound) (hx : Chronicled start x) : Chronicled start y :=
  (h.induct hfits hs hx fun _ _ hmove hs hs' hfits hy => hy.move hmove hs hs' hfits).2

theorem chronicled_new (maxPasses : Nat) :
    Chronicled (new maxPasses : Scene R).clock ((new maxPasses, []) : Scene R × Journal R ω) where
  accounted := by
    refine ⟨.refl _, ⟨rfl, nofun⟩, fun id ⟨n, hn, hstale⟩ => ?_⟩
    rw [(eq_of_node?_new hn).2] at hstale
    exact absurd rfl hstale
  sounds e he := absurd he List.not_mem_nil
  fair := fun pre e post h => by simp at h

end Scene

/-! ## Updates that are given up -/

namespace Stage

/-- An update that is given up made as many passes as it may, and the root was dirty all along. -/
theorem settleWithin_eq_false {l : Listener R ω} [Scalar R] :
    ∀ {limit : Nat} {st : Stage R ω}, (settleWithin l limit st).1 = false →
      (settleWithin l limit st).2 = (pass l)^[limit] st ∧
      ∀ i ≤ limit, ((pass l)^[i] st).scene.isDirty = true := by
  intro limit st h
  fun_induction settleWithin l limit st with
  | case1 st hdirty => exact ⟨rfl, fun i hi => by rw [Nat.le_zero.1 hi]; exact hdirty⟩
  | case2 st hdirty limit ih =>
    obtain ⟨hpasses, hall⟩ := ih h
    refine ⟨hpasses, fun i hi => ?_⟩
    cases i with
    | zero => exact hdirty
    | succ i => exact hall i (by omega)
  | case3 limit st hclean => cases h

/-- An update that fails has left the root dirty after each of its passes. -/
theorem settle_eq_error {l : Listener R ω} [Scalar R] {st st' : Stage R ω} {error : UpdateError}
    (h : settle l st = (.error error, st')) :
    error = .noConvergence st.scene.maxPasses ∧
    (∀ i ≤ st.scene.maxPasses, ((pass l)^[i] st).scene.isDirty = true) ∧
    st' = { (pass l)^[st.scene.maxPasses] st with
      scene := ((pass l)^[st.scene.maxPasses] st).scene.abandoned } := by
  cases hsettled : (settleWithin l st.scene.maxPasses st).1 with
  | true => simp [settle, hsettled] at h
  | false =>
    obtain ⟨hpasses, hdirty⟩ := settleWithin_eq_false hsettled
    simp only [settle, hsettled, hpasses] at h
    obtain ⟨herror, hst⟩ := Prod.ext_iff.1 h
    cases herror
    exact ⟨rfl, hdirty, hst.symm⟩

end Stage

/-- After an update ended, asking for the next one hands out a new token. -/
theorem Scene.clock_requestUpdate {s s' : Scene R} {id : NodeId} {flags : Flags}
    (h : s.requestUpdate id flags = .ok s') (hnone : s.pending = none) :
    s'.clock = ⟨some (s.lastToken + 1), s.lastToken + 1, s.stats.scheduled + 1⟩ := by
  rw [requestUpdate] at h
  split at h
  next hid =>
    cases h
    rw [clock_touch hid, Clock.rung_of_none (k := s.clock) hnone]
    rfl
  next => cases h

/-! ## Whole runs -/

namespace Conduct

variable [Scalar R]

/-- Between commands an update that settles leaves nothing stale and nothing to tell. -/
theorem settle_leaves_nothing (c : Conduct R ω) (depth maxPasses : Nat) (w : ω)
    (commands : List (Command R ω)) {st : Stage R ω}
    (h : Stage.settle (c.listener depth)
      (Stage.run (c.listener depth) commands (Stage.ofScene (new maxPasses) w)) = (.ok (), st))
    (hfits : st.scene.nodes.Fits) : st.scene.pending = none ∧
      ∀ id n, st.scene.node? id = some n → n.stale = ∅ ∧ n.changed = ∅ := by
  have hst : (Stage.settle (c.listener depth)
      (Stage.run (c.listener depth) commands (Stage.ofScene (new maxPasses) w))).2 = st :=
    congrArg Prod.snd h
  have hrun : Stage.run (c.listener depth) (commands ++ [.settle])
      (Stage.ofScene (new maxPasses) w) = st := by
    rw [Stage.run, List.foldl_append]
    exact hst
  have hreach : st.scene.Reachable := ⟨ω, c, depth, maxPasses, w, _, congrArg Stage.scene hrun.symm⟩
  have hclean : st.scene.isDirty = false := by
    rw [← hst]
    exact Stage.not_isDirty_settle (congrArg Prod.fst h)
  have hpending : st.scene.pending = none := by
    rw [← hst, Stage.settle]
    dsimp only
    split <;> rfl
  refine ⟨hpending, fun id n hn => ⟨(hreach.sound hfits).stale_of_not_isDirty hclean hn, ?_⟩⟩
  by_contra hchanged
  exact hreach.not_news hfits id ⟨n, hn, hchanged⟩

/-- No update is lost and none is asked for twice.

Of everything that a run notes, be it in the middle of an update: its clock is the one noted before,
rung at most once, and stopped if an update ended; tokens are counted; what is stale is asked for,
unless the last update was given up and nothing was asked for since; and an update that settled
leaves nothing stale, and only news that were there when it began.  Called by no observer, it leaves
no news either.

An update is given up after exactly as many passes as the scene allows, with the root dirty before
and after each, and all marks in place; the next one asked for gets a new token. -/
theorem updates_accounted (c : Conduct R ω) (depth maxPasses : Nat) (w : ω)
    (commands : List (Command R ω)) {st : Stage R (ω × Journal R ω)}
    (hrun : Stage.runNoted (c.noted depth) commands (Stage.ofScene (new maxPasses) (w, [])) = st)
    (hfits : st.scene.nodes.Fits) :
    st.bare = Stage.run (c.listener depth) commands (Stage.ofScene (new maxPasses) w) ∧
    (∀ pre e post, st.world.2 = pre ++ e :: post →
      (∃ k, (Journal.clock (new maxPasses : Scene R).clock pre).Rings k ∧
        e.scene.clock = if e.answer?.isSome then k.stopped else k) ∧
      e.scene.stats.scheduled = e.scene.lastToken ∧
      (∀ t, e.scene.pending = some t → t = e.scene.lastToken) ∧
      (∀ id, e.scene.Stale id →
        e.scene.pending ≠ none ∨ Journal.GaveUp (pre ++ [e]) e.scene.lastToken) ∧
      ∀ command before after, e = .ended command before after (some (.ok ())) →
        Rested before after) ∧
    (∀ st', Stage.settle (c.listener depth) st.bare = (.ok (), st') → st'.scene.nodes.Fits →
      st'.scene.pending = none ∧
        ∀ id n, st'.scene.node? id = some n → n.stale = ∅ ∧ n.changed = ∅) ∧
    ∀ (ω' : Type) (l : Listener R ω') (st₁ st₂ : Stage R ω') error,
      Stage.settle l st₁ = (.error error, st₂) →
      error = .noConvergence st₁.scene.maxPasses ∧
      (∀ i ≤ st₁.scene.maxPasses, ((Stage.pass l)^[i] st₁).scene.isDirty = true) ∧
      st₂ = { (Stage.pass l)^[st₁.scene.maxPasses] st₁ with
        scene := ((Stage.pass l)^[st₁.scene.maxPasses] st₁).scene.abandoned } ∧
      ∀ id flags s', st₂.scene.requestUpdate id flags = .ok s' → s'.clock =
        ⟨some (st₂.scene.lastToken + 1), st₂.scene.lastToken + 1, st₂.scene.stats.scheduled + 1⟩ := by
  have hbare := c.run_noted depth commands (Stage.ofScene (new maxPasses) (w, []))
  have hcourse : Course (new maxPasses, []) st.history := by
    rw [← hrun]
    exact c.course depth commands (Stage.ofScene (new maxPasses) (w, []))
  rw [hrun] at hbare
  refine ⟨hbare, fun pre e post hJ => ?_, fun st' hsettle hfits' => ?_,
    fun ω' l st₁ st₂ error hsettle => ?_⟩
  · obtain ⟨hto, hfrom⟩ := hcourse.upTo rfl hJ
    have hfits' := Nat.le_trans hfrom.slots hfits
    have hthere := hto.chronicled hfits' (sound_new maxPasses) (chronicled_new maxPasses)
    have hfair : Entry.Fair _ pre e := hthere.fair rfl
    exact ⟨hfair.clock, hthere.accounted.counts.scheduled, hthere.accounted.counts.pending,
      hthere.accounted.alert, hfair.rested⟩
  · rw [hbare] at hsettle
    exact c.settle_leaves_nothing depth maxPasses w commands hsettle hfits'
  · obtain ⟨herror, hdirty, hst⟩ := Stage.settle_eq_error hsettle
    refine ⟨herror, hdirty, hst, fun id flags s' hs' => clock_requestUpdate hs' ?_⟩
    rw [hst]
    rfl

end Conduct

/-! ## An observer that lets the scene settle -/

/-- Observers that let the scene settle whenever they are told of a node. -/
def Conduct.hasty : Conduct Int Unit where
  modified _ _ _ _ := [.settle]
  released _ _ w := w
  completed _ _ := []

/-- Two empty paths, of which the observer is told one after the other. -/
def Stage.hastyRun : Stage Int (Unit × Journal Int Unit) :=
  runNoted (Conduct.hasty.noted 1) [.addChild ⟨0, 0⟩ (.path []), .addChild ⟨0, 0⟩ (.path []),
    .addObserver, .settle] (ofScene (Scene.new 16) ((), []))

/-- The observer's update settles while the second path is yet to be told of. -/
theorem Stage.hastyRun_not_rested : ¬∀ e ∈ hastyRun.world.2, e.answer? = some (.ok ()) →
    ∀ id n, e.scene.node? id = some n → n.stale = ∅ ∧ n.changed = ∅ := by
  have hentry : ∃ e ∈ hastyRun.world.2, (e.answer?.any Except.isOk &&
      (e.scene.node? ⟨2, 0⟩).any fun n => !n.changed.isEmpty) = true := by
    decide +kernel
  obtain ⟨e, he, hboth⟩ := hentry
  obtain ⟨hok, hnews⟩ := Bool.and_eq_true_iff.1 hboth
  intro h
  cases hanswer : e.answer? with
  | none => simp [hanswer] at hok
  | some answer =>
    cases answer with
    | error error => simp [hanswer, Except.isOk, Except.toBool] at hok
    | ok u =>
      cases hn : e.scene.node? ⟨2, 0⟩ with
      | none => simp [hn] at hnews
      | some n =>
        obtain ⟨-, hchanged⟩ := h e he hanswer ⟨2, 0⟩ n hn
        rw [hn, Option.any_some, hchanged] at hnews
        cases hnews

theorem Conduct.updates_accounted_hasty :
    (Stage.hastyRun.world.2.all fun e => e.scene.stats.scheduled == e.scene.lastToken) = true := by
  obtain ⟨-, hentries, -⟩ := Conduct.hasty.updates_accounted 1 16 ()
    [.addChild ⟨0, 0⟩ (.path []), .addChild ⟨0, 0⟩ (.path []), .addObserver, .settle]
    (show _ = Stage.hastyRun from rfl) (by decide +kernel)
  refine List.all_eq_true.2 fun e he => beq_iff_eq.2 ?_
  obtain ⟨pre, post, hJ⟩ := List.append_of_mem he
  exact (hentries pre e post hJ).2.1

end Freehand
