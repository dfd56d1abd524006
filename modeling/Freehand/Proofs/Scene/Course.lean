import Freehand.Proofs.Scene.Fresh
import Freehand.Proofs.Scene.Journal
import Freehand.Proofs.Scene.Prompts

/-!
# Courses

A `Course` leads from one scene, with the journal so far, to another one in single moves: marks on
what a change makes stale, one pass over the stale nodes, the news of one node cleared, a command
begun or ended.  Every noted run is a course (`Conduct.course`), whatever the observers do.  So what
every move keeps, all scenes of a run have, those included that observers see in the middle of an
update (`Course.induct`).

The scene of an entry is a scene on the way: up to there the course is one with the journal up to
there (`Course.upTo`).
-/

namespace Freehand

open Scene

variable {R ω : Type} [Scalar R]

/-! ## Commands that are no updates -/

namespace Command

/-- The command lets the scene settle. -/
def isUpdate : Command R ω → Bool
  | settle | runPending => true
  | _ => false

/-- What a command that is no update does to a scene. -/
def effect (s : Scene R) : Command R ω → Scene R
  | edit e =>
    match e.apply s with
    | .ok s' => s'
    | .error _ => s
  | addChild parent kind => (s.addChild parent kind).scene
  | remove id =>
    match s.remove id with
    | .ok (s', _) => s'
    | .error _ => s
  | takeDamage => s.takeDamage.2
  | settle | runPending | addObserver | removeObserver _ | record _ => s

/-- What changes of the nodes have in common, all commands have that are no updates. -/
theorem effect_cases {motive : Scene R → Scene R → Prop} {s : Scene R} (hrefl : motive s s)
    (hedit : ∀ {s'}, Revised s s' → motive s s')
    (hadd : ∀ {p kind s' freed}, Added s p kind s' freed → motive s s')
    (hremove : ∀ {id s' freed}, s.remove id = .ok (s', freed) → motive s s')
    (htake : motive s s.takeDamage.2) (command : Command R ω) : motive s (command.effect s) := by
  cases command with
  | edit e =>
    simp only [effect]
    cases he : e.apply s with
    | error e => exact hrefl
    | ok s' => exact hedit (revised_apply e he)
  | addChild parent kind => exact hadd (added_addChild s parent kind)
  | remove id =>
    simp only [effect]
    cases hrem : s.remove id with
    | error e => exact hrefl
    | ok result => exact hremove hrem
  | takeDamage => exact htake
  | settle | runPending | addObserver | removeObserver _ | record _ => exact hrefl

theorem evolves_effect (s : Scene R) (command : Command R ω) : Evolves s (command.effect s) :=
  effect_cases (.refl s) (fun h => h.evolves) (fun h => h.evolves) evolves_remove
    (evolves_of_nodes_eq rfl rfl) command

/-- What single changes between sound scenes keep, commands keep that are no updates. -/
theorem edits {P : Scene R → Prop} {s : Scene R}
    (hP : ∀ {s s' : Scene R}, s.Sound → s'.Sound → Edited s s' → P s → P s')
    (command : Command R ω) (hs : s.Sound) (hfits : (command.effect s).nodes.Fits) (h : P s) :
    P (command.effect s) :=
  effect_cases (motive := fun s s' => s.Sound → s'.nodes.Fits → P s → P s')
    (fun _ _ h => h) (fun hrev hs _ => hP hs (hs.of_revised hrev) hrev.wears.edited)
    (fun hadd hs hfits => hadd.edits hP hs hfits)
    (fun hrem hs _ => hP hs (hs.remove hrem) (edited_remove hs.tree hrem))
    (fun hs _ => hP hs (hs.of_nodes_eq rfl rfl) (edited_of_nodes_eq rfl)) command hs hfits h

end Command

namespace Scene

/-- The scene after an update that settled. -/
def settled (s : Scene R) : Scene R :=
  { s with pending := none }

/-- The scene after an update that was given up. -/
def abandoned (s : Scene R) : Scene R :=
  { s with pending := none, stats.aborted := s.stats.aborted + 1 }

/-! ## Moves -/

/-- One step of a scene with the journal so far. -/
inductive Move : Scene R × Journal R ω → Scene R × Journal R ω → Prop where
  | began {s : Scene R} {J : Journal R ω} (command : Command R ω) :
      Move (s, J) (s, J ++ [.began command s])
  | marked {s : Scene R} {J : Journal R ω} (id : NodeId) (flags : Flags) :
      Move (s, J) (s.touch id flags, J)
  | recomputed {s : Scene R} {J : Journal R ω} : Move (s, J) (s.updatePass, J)
  | hushed {s : Scene R} {J : Journal R ω} (id : NodeId) : Move (s, J) (s.hush id, J)
  | counted {s : Scene R} {J : Journal R ω} :
      Move (s, J) ({ s with stats.passes := s.stats.passes + 1 }, J)
  | ended {s : Scene R} {J : Journal R ω} (command : Command R ω) :
      Move (s, J) (command.effect s, J ++ [.ended command s (command.effect s) none])
  | settled {before s : Scene R} {J : Journal R ω} {command : Command R ω}
      (hbefore : .began command before ∈ J) (hevolves : Evolves before s)
      (hclean : s.isDirty = false) :
      Move (s, J) (s.settled, J ++ [.ended command before s.settled (some (.ok ()))])
  | abandoned {before s : Scene R} {J : Journal R ω} {command : Command R ω} {limit : Nat} :
      Move (s, J) (s.abandoned,
        J ++ [.ended command before s.abandoned (some (.error (.noConvergence limit)))])

/-- Moves one after the other. -/
def Course : Scene R × Journal R ω → Scene R × Journal R ω → Prop :=
  Relation.ReflTransGen Move

variable {x y z : Scene R × Journal R ω}

/-- A move notes nothing, or the scene that it leads to. -/
theorem Move.journal (h : Move x y) : y.2 = x.2 ∨ ∃ e, y = (e.scene, x.2 ++ [e]) := by
  cases h with
  | began command => exact .inr ⟨.began command _, rfl⟩
  | marked => exact .inl rfl
  | recomputed => exact .inl rfl
  | hushed => exact .inl rfl
  | counted => exact .inl rfl
  | ended command => exact .inr ⟨.ended command _ _ none, rfl⟩
  | settled => exact .inr ⟨.ended _ _ _ (some (.ok ())), rfl⟩
  | abandoned => exact .inr ⟨.ended _ _ _ (some (.error _)), rfl⟩

theorem Move.slots (h : Move x y) : x.1.nodes.slots.size ≤ y.1.nodes.slots.size := by
  cases h with
  | began => exact Nat.le_refl _
  | marked id flags => exact (evolves_touch _ id flags).slots
  | recomputed => exact Nat.le_of_eq (stays_updatePass _).slots.symm
  | hushed id => exact Nat.le_of_eq (stays_modify _ id _).slots.symm
  | counted => exact Nat.le_refl _
  | ended command => exact (command.evolves_effect _).slots
  | settled => exact Nat.le_refl _
  | abandoned => exact Nat.le_refl _

theorem Move.sound (h : Move x y) (hfits : y.1.nodes.Fits) (hs : x.1.Sound) : y.1.Sound := by
  cases h with
  | began => exact hs
  | marked id flags => exact hs.touch id flags
  | recomputed => exact hs.updatePass
  | hushed id => exact hs.hush id
  | counted => exact hs.of_nodes_eq rfl rfl
  | ended command => exact (command.evolves_effect _).sound hfits hs
  | settled => exact hs.of_nodes_eq rfl rfl
  | abandoned => exact hs.of_nodes_eq rfl rfl

/-- What single changes and passes keep, moves keep. -/
theorem Move.edits {P : Scene R → Prop}
    (hP : ∀ {s s' : Scene R}, s.Sound → s'.Sound → Edited s s' → P s → P s')
    (hpass : ∀ {s : Scene R}, s.Sound → P s → P s.updatePass) (hmove : Move x y)
    (hs : x.1.Sound) (hs' : y.1.Sound) (hfits : y.1.nodes.Fits) (h : P x.1) : P y.1 := by
  cases hmove with
  | began => exact h
  | marked id flags => exact hP hs hs' (wears_touch _ id flags).edited h
  | recomputed => exact hpass hs h
  | hushed id => exact hP hs hs' (Wears.of_agree (agree_hush (fun _ _ => rfl) _ id)).edited h
  | counted => exact hP hs hs' (edited_of_nodes_eq rfl) h
  | ended command => exact command.edits hP hs hfits h
  | settled => exact hP hs hs' (edited_of_nodes_eq rfl) h
  | abandoned => exact hP hs hs' (edited_of_nodes_eq rfl) h

/-- An element of a list with a last one is the last one, or it is before it. -/
theorem cases_of_append_singleton {α : Type} {as pre post : List α} {a e : α}
    (h : as ++ [a] = pre ++ e :: post) :
    (pre = as ∧ e = a ∧ post = []) ∨ ∃ post', as = pre ++ e :: post' ∧ post = post' ++ [a] := by
  rcases List.eq_nil_or_concat post with rfl | ⟨post', b, rfl⟩
  · obtain ⟨has, ha⟩ := List.append_inj' h rfl
    exact .inl ⟨has.symm, (List.singleton_inj.1 ha).symm, rfl⟩
  · have h' : as ++ [a] = (pre ++ e :: post') ++ [b] := by simpa using h
    obtain ⟨has, ha⟩ := List.append_inj' h' rfl
    exact .inr ⟨post', has, by rw [List.singleton_inj.1 ha, List.concat_eq_append]⟩

namespace Course

theorem refl (x : Scene R × Journal R ω) : Course x x :=
  Relation.ReflTransGen.refl

theorem trans (h : Course x y) (h' : Course y z) : Course x z :=
  Relation.ReflTransGen.trans h h'

theorem of_move (h : Move x y) : Course x y :=
  Relation.ReflTransGen.single h

theorem slots (h : Course x y) : x.1.nodes.slots.size ≤ y.1.nodes.slots.size := by
  induction h with
  | refl => exact Nat.le_refl _
  | tail _ hmove ih => exact Nat.le_trans ih hmove.slots

/-- What moves between sound scenes keep, courses keep, as long as words of 32 bits name the
slots. -/
theorem induct {P : Scene R × Journal R ω → Prop} (h : Course x y) (hfits : y.1.nodes.Fits)
    (hs : x.1.Sound) (hx : P x)
    (hmove : ∀ ⦃y z⦄, Move y z → y.1.Sound → z.1.Sound → z.1.nodes.Fits → P y → P z) :
    y.1.Sound ∧ P y := by
  induction h with
  | refl => exact ⟨hs, hx⟩
  | tail _ hstep ih =>
    obtain ⟨hsound, hP⟩ := ih (Nat.le_trans hstep.slots hfits)
    have hsound' := hstep.sound hfits hsound
    exact ⟨hsound', hmove hstep hsound hsound' hfits hP⟩

theorem sound (h : Course x y) (hfits : y.1.nodes.Fits) (hs : x.1.Sound) : y.1.Sound :=
  (h.induct (P := fun _ => True) hfits hs trivial fun _ _ _ _ _ _ _ => trivial).1

/-- Journals only grow. -/
theorem journal (h : Course x y) : ∃ more, y.2 = x.2 ++ more := by
  induction h with
  | refl => exact ⟨[], (List.append_nil _).symm⟩
  | tail _ hmove ih =>
    obtain ⟨more, hmore⟩ := ih
    rcases hmove.journal with hsame | ⟨e, rfl⟩
    · exact ⟨more, hsame.trans hmore⟩
    · exact ⟨more ++ [e], by rw [hmore, List.append_assoc]⟩

/-- Up to an entry of the journal, a course leads to the scene of the entry. -/
theorem upTo {pre post : Journal R ω} {e : Entry R ω} (h : Course x y) (hx : x.2 = [])
    (hy : y.2 = pre ++ e :: post) :
    Course x (e.scene, pre ++ [e]) ∧ Course (e.scene, pre ++ [e]) y := by
  induction h generalizing post with
  | refl => simp [hx] at hy
  | tail hcourse hmove ih =>
    rcases hmove.journal with hsame | ⟨e', rfl⟩
    · obtain ⟨hto, hfrom⟩ := ih (hsame.symm.trans hy)
      exact ⟨hto, hfrom.tail hmove⟩
    · rcases cases_of_append_singleton hy with ⟨rfl, rfl, -⟩ | ⟨post', hbefore, -⟩
      · exact ⟨hcourse.tail hmove, .refl _⟩
      · obtain ⟨hto, hfrom⟩ := ih hbefore
        exact ⟨hto, hfrom.tail hmove⟩

end Course

end Scene

/-! ## Noted runs are courses -/

namespace Stage

/-- The scene of a stage with the journal so far. -/
def history (st : Stage R (ω × Journal R ω)) : Scene R × Journal R ω :=
  (st.scene, st.world.2)

end Stage

omit [Scalar R] in
theorem Stage.history_write {st : Stage R (ω × Journal R ω)} {s before : Scene R}
    {J : Journal R ω} {command : Command R ω} {answer : Option (Except UpdateError Unit)}
    (h : st.history = (s, J)) : (st.write (.ended command before st.scene answer)).history =
      (s, J ++ [.ended command before s answer]) := by
  obtain ⟨rfl, rfl⟩ := Prod.ext_iff.1 h
  rfl

/-- What observers do is a course, and nothing is noted of freed nodes. -/
structure Listener.Notes (l : Listener R (ω × Journal R ω)) : Prop where
  modified : ∀ o id flags st, Course st.history (l.modified o id flags st).history
  released : ∀ o id w, (l.released o id w).2 = w.2
  completed : ∀ o st, Course st.history (l.completed o st).history

namespace Listener.Notes

open Stage

variable {l : Listener R (ω × Journal R ω)}

theorem course_foldl {α : Type} {f : Stage R (ω × Journal R ω) → α → Stage R (ω × Journal R ω)}
    (h : ∀ st a, Course st.history (f st a).history) (as : List α)
    (st : Stage R (ω × Journal R ω)) : Course st.history (as.foldl f st).history :=
  as.foldlRecOn (motive := fun st' => Course st.history st'.history) f (.refl _)
    fun st' hst a _ => hst.trans (h st' a)

theorem course_dispatch {tell : ObserverId → Stage R (ω × Journal R ω) → Stage R (ω × Journal R ω)}
    (h : ∀ o st, Course st.history (tell o st).history) (st : Stage R (ω × Journal R ω)) :
    Course st.history (dispatch st tell).history :=
  course_foldl (fun st o => h o st) st.observers { st with observers := [] }

theorem course_touches (J : Journal R ω) (ks : List Link) (s : Scene R) :
    Course (s, J) (ks.foldl (fun s k => s.touch k.node k.role.stale) s, J) :=
  ks.foldlRecOn (motive := fun t => Course (s, J) (t, J)) _ (.refl _)
    fun _ ht k _ => ht.tail (.marked k.node k.role.stale)

theorem course_notify (hl : l.Notes) (st : Stage R (ω × Journal R ω)) (id : NodeId)
    (flags : Flags) : Course st.history (notify l st id flags).history := by
  rw [notify]
  split
  · exact .refl _
  next n _ =>
    refine (course_touches st.world.2 n.subscribers st.scene).trans ?_
    exact course_dispatch (fun o st => hl.modified o id flags st)
      { st with scene := n.subscribers.foldl (fun s k => s.touch k.node k.role.stale) st.scene }

/-- Telling a subtree is a course, child by child and then the node. -/
theorem course_notifySubtree (hl : l.Notes) :
    ∀ (levels : Nat) (id : NodeId) (st : Stage R (ω × Journal R ω)),
      Course st.history (notifySubtree l levels id st).history := by
  intro levels
  induction levels with
  | zero => exact fun _ _ => .refl _
  | succ levels ih =>
    intro id st
    rw [notifySubtree]
    split
    · exact .refl _
    next n _ =>
      dsimp only
      split
      · exact .refl _
      · have hhush : Course st.history { st with scene := st.scene.hush id }.history :=
          .of_move (.hushed id)
        exact (hhush.trans (course_foldl (fun st c => ih c st) n.children _)).trans
          (course_notify hl _ id n.changed)

theorem course_pass (hl : l.Notes) (st : Stage R (ω × Journal R ω)) :
    Course st.history (pass l st).history := by
  have hpass : Course st.history { st with scene := st.scene.updatePass }.history :=
    .of_move .recomputed
  have hwalk := hl.course_notifySubtree st.scene.updatePass.nodes.slots.size
    st.scene.updatePass.root { st with scene := st.scene.updatePass }
  exact ((hpass.trans hwalk).trans (course_dispatch hl.completed _)).tail .counted

theorem course_settleWithin (hl : l.Notes) :
    ∀ (limit : Nat) (st : Stage R (ω × Journal R ω)),
      Course st.history (settleWithin l limit st).2.history := by
  intro limit st
  fun_induction settleWithin l limit st with
  | case1 st hdirty => exact .refl _
  | case2 st hdirty limit ih => exact (hl.course_pass st).trans ih
  | case3 limit st hclean => exact .refl _

theorem world_announce (hl : l.Notes) (st : Stage R (ω × Journal R ω)) (freed : List NodeId) :
    (announce l st freed).world.2 = st.world.2 := by
  have htell : ∀ (id : NodeId) (os : List ObserverId) (w : ω × Journal R ω),
      (os.foldl (fun w o => l.released o id w) w).2 = w.2 := fun id os w =>
    os.foldlRecOn (motive := fun w' => w'.2 = w.2) _ rfl
      fun w' hw o _ => (hl.released o id w').trans hw
  exact freed.foldlRecOn (motive := fun w => w.2 = st.world.2) _ rfl
    fun w hw id _ => (htell id st.observers w).trans hw

/-- A command that is no update has its effect, and observers note nothing meanwhile. -/
theorem history_perform (hl : l.Notes) (st : Stage R (ω × Journal R ω)) {command : Command R ω}
    (h : command.isUpdate = false) :
    (perform l st command.noted).history = (command.effect st.scene, st.world.2) := by
  cases command with
  | edit e =>
    simp only [perform, Command.noted, edit, Command.effect]
    cases e.apply st.scene <;> rfl
  | addChild parent kind => exact Prod.ext rfl (hl.world_announce _ _)
  | remove id =>
    simp only [perform, Command.noted, Stage.remove, Command.effect]
    cases st.scene.remove id with
    | error e => rfl
    | ok result => exact Prod.ext rfl (hl.world_announce _ _)
  | settle | runPending => cases h
  | takeDamage | addObserver | removeObserver _ | record _ => rfl

/-- An update that a command begins is a course of passes, and ends with the root clean or is given
up. -/
theorem course_settle (hl : l.Notes) (horderly : l.Orderly) {command : Command R ω}
    {st : Stage R (ω × Journal R ω)} (hbegan : .began command st.scene ∈ st.world.2) :
    Course st.history ((settle l st).2.write
      (.ended command st.scene (settle l st).2.scene (some (settle l st).1))).history := by
  have hpasses := hl.course_settleWithin st.scene.maxPasses st
  have hevolves := cumulative_evolves.settleWithin horderly.evolves_pass st.scene.maxPasses st
  obtain ⟨more, hmore⟩ := hpasses.journal
  have hbegan' : .began command st.scene ∈ (settleWithin l st.scene.maxPasses st).2.world.2 := by
    show _ ∈ (settleWithin l st.scene.maxPasses st).2.history.2
    rw [hmore]
    exact List.mem_append_left more hbegan
  cases hsettled : (settleWithin l st.scene.maxPasses st).1 with
  | true =>
    have hclean := not_isDirty_settleWithin hsettled
    simp only [settle, hsettled]
    exact hpasses.tail (.settled hbegan' hevolves hclean)
  | false =>
    simp only [settle, hsettled]
    exact hpasses.tail .abandoned

/-- A noted command is a course: its entries are written before and after what it does. -/
theorem course_note (hl : l.Notes) (horderly : l.Orderly) (st : Stage R (ω × Journal R ω))
    (command : Command R ω) : Course st.history (note l st command).history := by
  have hbegan : Course st.history (st.write (.began command st.scene)).history :=
    .of_move (.began command)
  have hmem : .began command st.scene ∈ (st.write (.began command st.scene)).world.2 :=
    List.mem_append_right _ (List.mem_singleton_self _)
  refine hbegan.trans ?_
  cases hupdate : command.isUpdate with
  | false =>
    have hperform := hl.history_perform (st.write (.began command st.scene)) hupdate
    have hanswer : answer? l (st.write (.began command st.scene)) command = none := by
      cases command with
      | settle | runPending => cases hupdate
      | edit _ | addChild _ _ | remove _ | takeDamage | addObserver | removeObserver _
        | record _ => rfl
    rw [note, hanswer, history_write hperform]
    exact .of_move (.ended command)
  | true =>
    cases command with
    | settle => exact hl.course_settle horderly hmem
    | runPending =>
      cases hpending : st.scene.pending with
      | none =>
        have hidle : note l st .runPending = (st.write (.began .runPending st.scene)).write
            (.ended .runPending st.scene st.scene none) := by
          simp [note, perform, Command.noted, runPending, answer?, write, hpending]
        rw [hidle]
        exact .of_move (.ended .runPending)
      | some t =>
        have hupdate : note l st .runPending =
            (settle l (st.write (.began .runPending st.scene))).2.write
              (.ended .runPending st.scene
                (settle l (st.write (.began .runPending st.scene))).2.scene
                (some (settle l (st.write (.began .runPending st.scene))).1)) := by
          simp [note, perform, Command.noted, runPending, answer?, write, hpending]
        rw [hupdate]
        exact hl.course_settle horderly hmem
    | edit _ | addChild _ _ | remove _ | takeDamage | addObserver | removeObserver _
      | record _ => cases hupdate

theorem course_runNoted (hl : l.Notes) (horderly : l.Orderly) (commands : List (Command R ω))
    (st : Stage R (ω × Journal R ω)) : Course st.history (runNoted l commands st).history :=
  course_foldl (hl.course_note horderly) commands st

end Listener.Notes

theorem Listener.Orderly.evolves_runNoted {l : Listener R (ω × Journal R ω)} (hl : l.Orderly)
    (commands : List (Command R ω)) (st : Stage R (ω × Journal R ω)) :
    Evolves st.scene (st.runNoted l commands).scene := by
  have hnote : ∀ (st : Stage R (ω × Journal R ω)) (command : Command R ω),
      Evolves st.scene (st.note l command).scene := fun st command =>
    cumulative_evolves.perform hl.evolves_pass (fun he => (revised_apply _ he).evolves)
      (fun h => h.evolves) evolves_remove (st.write (.began command st.scene)) command.noted
  exact cumulative_evolves.foldl hnote commands st

namespace Conduct

theorem orderly_noted (c : Conduct R ω) : ∀ depth, (c.noted depth).Orderly := by
  intro depth
  induction depth with
  | zero => exact ⟨fun _ _ _ st => .refl st.scene, fun _ st => .refl st.scene⟩
  | succ depth ih =>
    exact ⟨fun o id flags st => ih.evolves_runNoted (c.modified o id flags st.bare) st,
      fun o st => ih.evolves_runNoted (c.completed o st.bare) st⟩

theorem notes_noted (c : Conduct R ω) : ∀ depth, (c.noted depth).Notes := by
  intro depth
  induction depth with
  | zero => exact ⟨fun _ _ _ _ => .refl _, fun _ _ _ => rfl, fun _ _ => .refl _⟩
  | succ depth ih =>
    have horderly := c.orderly_noted depth
    exact ⟨fun o id flags st => ih.course_runNoted horderly (c.modified o id flags st.bare) st,
      fun _ _ _ => rfl,
      fun o st => ih.course_runNoted horderly (c.completed o st.bare) st⟩

/-- Every noted run is a course. -/
theorem course (c : Conduct R ω) (depth : Nat) (commands : List (Command R ω))
    (st : Stage R (ω × Journal R ω)) :
    Course st.history (Stage.runNoted (c.noted depth) commands st).history :=
  (c.notes_noted depth).course_runNoted (c.orderly_noted depth) commands st

end Conduct

/-- A reachable scene is where a course from a scene with a root only leads. -/
theorem Scene.Reachable.course {s : Scene R} (h : s.Reachable) :
    ∃ (ω : Type) (maxPasses : Nat) (J : Journal R ω), Course (new maxPasses, []) (s, J) := by
  obtain ⟨ω, c, depth, maxPasses, w, commands, rfl⟩ := h
  have hcourse := c.course depth commands (Stage.ofScene (new maxPasses) (w, []))
  have hrun := c.run_noted depth commands (Stage.ofScene (new maxPasses) (w, []))
  refine ⟨ω, maxPasses,
    (Stage.runNoted (c.noted depth) commands (Stage.ofScene (new maxPasses) (w, []))).world.2, ?_⟩
  rw [← show _ = (Stage.run (c.listener depth) commands (Stage.ofScene (new maxPasses) w)).scene
    from congrArg Stage.scene hrun]
  exact hcourse

end Freehand
