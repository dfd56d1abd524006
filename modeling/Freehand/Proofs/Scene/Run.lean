import Freehand.Proofs.Scene.Walk

/-!
# What holds of runs

Passes, edits, additions and removals are all that a command does to a scene, so what these add up
to, every command and every run adds up to (`Scene.Cumulative.perform`).  Observers that only give
commands are orderly (`Conduct.orderly`).

Reachable scenes are sound and have no news.
-/

namespace Freehand

open Scene

variable {R ω : Type} [Scalar R]

namespace Stage

theorem settleWithin_clean {l : Listener R ω} {st : Stage R ω} (hclean : st.scene.isDirty ≠ true)
    (limit : Nat) : settleWithin l limit st = (true, st) := by
  cases limit <;> rw [settleWithin, if_neg hclean]

theorem settleWithin_dirty {l : Listener R ω} {st : Stage R ω} (hdirty : st.scene.isDirty = true)
    (limit : Nat) : settleWithin l (limit + 1) st = settleWithin l limit (pass l st) := by
  rw [settleWithin, if_pos hdirty]

/-- Passes are repeated until the root is clean. -/
theorem not_isDirty_settleWithin {l : Listener R ω} :
    ∀ {limit : Nat} {st : Stage R ω}, (settleWithin l limit st).1 = true →
      (settleWithin l limit st).2.scene.isDirty = false := by
  intro limit st h
  fun_induction settleWithin l limit st with
  | case1 st hdirty => cases h
  | case2 st hdirty limit ih => exact ih h
  | case3 limit st hclean => exact Bool.eq_false_iff.2 hclean

theorem not_isDirty_settle {l : Listener R ω} {st : Stage R ω} (h : (settle l st).1 = .ok ()) :
    (settle l st).2.scene.isDirty = false := by
  cases hsettled : (settleWithin l st.scene.maxPasses st).1 with
  | true =>
    have hclean := not_isDirty_settleWithin hsettled
    simp only [settle, hsettled]
    exact hclean
  | false => simp [settle, hsettled] at h

end Stage

/-! ## What runs add up to -/

namespace Scene.Cumulative

open Stage

variable {rel : Scene R → Scene R → Prop} {l : Listener R ω}

/-- What passes, edits, additions and removals do, every command does. -/
theorem perform (h : Cumulative rel) (hpass : ∀ st, rel st.scene (pass l st).scene)
    (hedit : ∀ {e : Edit R} {s s'}, e.apply s = .ok s' → rel s s')
    (hadd : ∀ {s p kind s' freed}, Added s p kind s' freed → rel s s')
    (hremove : ∀ {s id s' freed}, s.remove id = .ok (s', freed) → rel s s')
    (st : Stage R ω) (command : Command R ω) : rel st.scene (st.perform l command).scene := by
  cases command with
  | edit e =>
    simp only [Stage.perform, Stage.edit]
    cases he : e.apply st.scene with
    | error e => exact h.refl st.scene
    | ok s' => exact hedit he
  | addChild parent kind => exact hadd (added_addChild st.scene parent kind)
  | remove id =>
    simp only [Stage.perform, Stage.remove]
    cases hrem : st.scene.remove id with
    | error e => exact h.refl st.scene
    | ok result => exact hremove hrem
  | settle => exact h.settle hpass st
  | runPending => exact h.runPending hpass st
  | takeDamage => exact h.of_nodes_eq rfl rfl
  | addObserver => exact h.refl st.scene
  | removeObserver o => exact h.refl st.scene
  | record f => exact h.refl st.scene

end Scene.Cumulative

theorem Listener.Orderly.evolves_run {l : Listener R ω} (hl : l.Orderly)
    (commands : List (Command R ω)) (st : Stage R ω) :
    Evolves st.scene (st.run l commands).scene :=
  cumulative_evolves.foldl (cumulative_evolves.perform hl.evolves_pass
    (fun he => (revised_apply _ he).evolves) (fun h => h.evolves) evolves_remove) commands st

/-- Observers that only give commands are orderly, however deep their updates are nested. -/
theorem Conduct.orderly (c : Conduct R ω) : ∀ depth, (c.listener depth).Orderly := by
  intro depth
  induction depth with
  | zero => exact ⟨fun _ _ _ st => .refl st.scene, fun _ st => .refl st.scene⟩
  | succ depth ih =>
    exact ⟨fun o id flags st => ih.evolves_run (c.modified o id flags st) st,
      fun o st => ih.evolves_run (c.completed o st) st⟩

namespace Scene

/-! ## Reachable scenes -/

theorem node?_new (maxPasses : Nat) (id : NodeId) :
    (new maxPasses : Scene R).node? id =
      if id = ⟨0, 0⟩ then some (.ofKind (.group false) none) else none := by
  have hfits : (Arena.empty.insert (Node.ofKind (.group false) none : Node R)).2.Fits := by
    show 1 ≤ UInt32.size
    decide
  exact Arena.get?_insert Arena.valid_empty _ hfits id

/-- The only node of a new scene is the root, an empty group. -/
theorem eq_of_node?_new {maxPasses : Nat} {id : NodeId} {n : Node R}
    (hn : (new maxPasses : Scene R).node? id = some n) :
    id = ⟨0, 0⟩ ∧ n = .ofKind (.group false) none := by
  rw [node?_new] at hn
  split at hn
  next hid => exact ⟨hid, (Option.some.inj hn).symm⟩
  next => cases hn

/-- The root alone is a tree. -/
theorem tree_new (maxPasses : Nat) : (new maxPasses : Scene R).Tree where
  root := ⟨_, by rw [node?_new]; rfl, rfl, rfl⟩
  parent id n hn hid := absurd (eq_of_node?_new hn).1 hid
  child id n c hn hc := by
    rw [(eq_of_node?_new hn).2] at hc
    cases hc
  grounded := by
    refine ⟨fun id => ⟨id, fun p hp => ?_⟩⟩
    obtain ⟨n, hn, hparent⟩ := parent?_eq_some_iff.1 hp
    rw [(eq_of_node?_new hn).2] at hparent
    cases hparent

/-- There are no links in a new scene. -/
theorem linked_new (maxPasses : Nat) : (new maxPasses : Scene R).Linked := by
  have hheld : ∀ o r, (new maxPasses : Scene R).held? o r = none := by
    intro o r
    cases hn : (new maxPasses : Scene R).node? o with
    | none => rw [held?, hn, Option.bind_none]
    | some n => rw [held?_of_node? hn, (eq_of_node?_new hn).2, held_ofKind rfl]
  refine ⟨fun o n hn => ?_, fun t m hm => ?_, fun o n hn t r => ?_, fun t m hm o r => ?_,
    fun o n _ t r hsome => ?_⟩
  · rw [(eq_of_node?_new hn).2]
    exact List.nodup_nil
  · rw [(eq_of_node?_new hm).2]
    exact List.nodup_nil
  · rw [hheld, (eq_of_node?_new hn).2]
    simp [Node.ofKind]
  · rw [hheld, (eq_of_node?_new hm).2]
    simp [Node.ofKind]
  · rw [hheld] at hsome
    cases hsome

theorem sound_new (maxPasses : Nat) : (new maxPasses : Scene R).Sound where
  valid := by
    refine Arena.Valid.insert Arena.valid_empty _ ?_
    show 1 ≤ UInt32.size
    decide
  tree := tree_new maxPasses
  linked := linked_new maxPasses
  rising id n p m hn hp := by
    rw [(eq_of_node?_new hn).2] at hp
    cases hp

theorem not_news_new (maxPasses : Nat) (j : NodeId) : ¬(new maxPasses : Scene R).News j := by
  rintro ⟨n, hn, hchanged⟩
  rw [(eq_of_node?_new hn).2] at hchanged
  exact hchanged rfl

namespace Reachable

variable {s : Scene R}

theorem evolves (h : s.Reachable) : ∃ maxPasses, Evolves (new maxPasses) s := by
  obtain ⟨ω, c, depth, maxPasses, w, commands, rfl⟩ := h
  exact ⟨maxPasses, (c.orderly depth).evolves_run commands (Stage.ofScene (new maxPasses) w)⟩

theorem sound (h : s.Reachable) (hfits : s.nodes.Fits) : s.Sound := by
  obtain ⟨maxPasses, hevolves⟩ := h.evolves
  exact hevolves.sound hfits (sound_new maxPasses)

theorem not_news (h : s.Reachable) (hfits : s.nodes.Fits) (j : NodeId) : ¬s.News j := by
  obtain ⟨maxPasses, hevolves⟩ := h.evolves
  intro hj
  exact not_news_new maxPasses j ((hevolves.quiets hfits (sound_new maxPasses)).fades hj).1

end Reachable

end Scene

end Freehand
