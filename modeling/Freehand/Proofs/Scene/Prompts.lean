import Freehand.Proofs.Scene.Membership

/-!
# Changes ask for updates

The *clock* of a scene is what its scheduler knows of the updates that were asked for.  A change
leaves the clock alone, or rings for the next update where none is outstanding, and a change that
leaves none outstanding leaves no new marks either (`Scene.Prompts`).

Only removing a node damages anything by itself: the box of the node, before all else.
-/

namespace Freehand

/-- What a scheduler knows of the updates that were asked for. -/
structure Clock where
  /-- The token of the update that is outstanding. -/
  pending : Option Nat
  /-- The token handed out last, or zero. -/
  lastToken : Nat
  /-- The number of updates asked for. -/
  scheduled : Nat
  deriving DecidableEq, Repr

namespace Clock

/-- The clock after an update is asked for: the next token is handed out, unless one is
outstanding. -/
def rung (k : Clock) : Clock :=
  match k.pending with
  | some _ => k
  | none => ⟨some (k.lastToken + 1), k.lastToken + 1, k.scheduled + 1⟩

/-- The clock after an update ended. -/
def stopped (k : Clock) : Clock :=
  { k with pending := none }

variable {k : Clock}

theorem rung_of_none (h : k.pending = none) :
    k.rung = ⟨some (k.lastToken + 1), k.lastToken + 1, k.scheduled + 1⟩ := by
  rw [rung, h]

theorem rung_of_some {t : Nat} (h : k.pending = some t) : k.rung = k := by
  rw [rung, h]

theorem pending_rung_ne_none (k : Clock) : k.rung.pending ≠ none := by
  cases hp : k.pending with
  | none => simp [rung_of_none hp]
  | some t => simp [rung_of_some hp, hp]

theorem rung_rung (k : Clock) : k.rung.rung = k.rung := by
  obtain ⟨t, ht⟩ := Option.ne_none_iff_exists'.1 k.pending_rung_ne_none
  exact rung_of_some ht

/-- The clocks agree, or the second one is the first one rung. -/
def Rings (k k' : Clock) : Prop :=
  k' = k ∨ k' = k.rung

namespace Rings

variable {k' k'' : Clock}

theorem refl (k : Clock) : Rings k k :=
  .inl rfl

/-- Requests for an update add up to one. -/
theorem trans (h : Rings k k') (h' : Rings k' k'') : Rings k k'' := by
  rcases h with rfl | rfl
  · exact h'
  · rcases h' with rfl | rfl
    · exact .inr rfl
    · exact .inr (rung_rung k)

/-- A clock without an outstanding update was not rung. -/
theorem eq_of_none (h : Rings k k') (hnone : k'.pending = none) : k' = k := by
  rcases h with rfl | rfl
  · rfl
  · exact absurd hnone k.pending_rung_ne_none

end Rings

/-- Tokens are counted: the number of updates asked for is the token handed out last, and no other
one is outstanding. -/
structure Counts (k : Clock) : Prop where
  scheduled : k.scheduled = k.lastToken
  pending : ∀ ⦃t⦄, k.pending = some t → t = k.lastToken

/-- Tokens are still counted when the clock was rung. -/
theorem Counts.of_rings {k' : Clock} (h : k.Counts) (hrings : Rings k k') : k'.Counts := by
  rcases hrings with rfl | rfl
  · exact h
  · cases hp : k.pending with
    | some t =>
      rw [rung_of_some hp]
      exact h
    | none =>
      rw [rung_of_none hp]
      exact ⟨congrArg (· + 1) h.scheduled, fun t ht => (Option.some.inj ht).symm⟩

theorem Counts.stopped (h : k.Counts) : k.stopped.Counts :=
  ⟨h.scheduled, nofun⟩

end Clock

namespace Scene

variable {R β : Type} {s s' s'' t : Scene R} {id j : NodeId} {n : Node R} {flags : Flags}

/-- The clock of a scene. -/
def clock (s : Scene R) : Clock :=
  ⟨s.pending, s.lastToken, s.stats.scheduled⟩

/-- Something about the node must be recomputed. -/
def Stale (s : Scene R) (id : NodeId) : Prop :=
  ∃ n, s.node? id = some n ∧ n.stale ≠ ∅

theorem stale_iff_of_agree (h : Agree Node.stale s s') : s'.Stale id ↔ s.Stale id := by
  constructor
  · rintro ⟨n', hn', hstale⟩
    obtain ⟨n, hn, heq⟩ := h.symm.node? hn'
    exact ⟨n, hn, heq ▸ hstale⟩
  · rintro ⟨n, hn, hstale⟩
    obtain ⟨n', hn', heq⟩ := h.node? hn
    exact ⟨n', hn', heq ▸ hstale⟩

/-- The change asks for an update, or it leaves no new marks. -/
structure Prompts (s s' : Scene R) : Prop where
  rings : s.clock.Rings s'.clock
  alert : s'.pending = none → ∀ ⦃id⦄, s'.Stale id → s.Stale id
  damage : s'.damage = s.damage
  maxPasses : s'.maxPasses = s.maxPasses

namespace Prompts

theorem refl (s : Scene R) : Prompts s s :=
  ⟨.refl _, fun _ _ h => h, rfl, rfl⟩

/-- Prompts add up. -/
theorem trans (h : Prompts s s') (h' : Prompts s' s'') : Prompts s s'' where
  rings := h.rings.trans h'.rings
  alert hnone id hstale := by
    have hsame : s''.pending = s'.pending :=
      congrArg Clock.pending (h'.rings.eq_of_none hnone)
    exact h.alert (hsame ▸ hnone) (h'.alert hnone hstale)
  damage := h'.damage.trans h.damage
  maxPasses := h'.maxPasses.trans h.maxPasses

theorem foldl {α : Type} {f : Scene R → α → Scene R} (h : ∀ s a, Prompts s (f s a))
    (as : List α) (s : Scene R) : Prompts s (as.foldl f s) :=
  as.foldlRecOn f (.refl s) fun t ht a _ => ht.trans (h t a)

/-- A change of the nodes that marks none. -/
theorem of_nodesOnly (h : NodesOnly s s') (hstale : ∀ ⦃id⦄, s'.Stale id → s.Stale id) :
    Prompts s s' := by
  rw [NodesOnly] at h
  exact ⟨.inl (by rw [h]; rfl), fun _ => hstale, by rw [h], by rw [h]⟩

theorem of_agree (h : NodesOnly s s') (hagree : Agree Node.stale s s') : Prompts s s' :=
  .of_nodesOnly h fun _ => (stale_iff_of_agree hagree).1

end Prompts

/-! ## Marking -/

theorem clock_schedule (s : Scene R) : s.schedule.clock = s.clock.rung := by
  rw [schedule]
  split
  next t ht => exact (Clock.rung_of_some (k := s.clock) ht).symm
  next hnone => exact (Clock.rung_of_none (k := s.clock) hnone).symm

/-- The nodes and the clock aside, asking for an update changes nothing. -/
theorem schedule_eq (s : Scene R) : s.schedule.damage = s.damage ∧
    s.schedule.maxPasses = s.maxPasses := by
  rw [schedule]
  split <;> exact ⟨rfl, rfl⟩

/-- A touch rings the clock, if the node is there. -/
theorem clock_touch (hid : s.contains id = true) (flags : Flags) :
    (s.touch id flags).clock = s.clock.rung := by
  have hnodes : NodesOnly s (markChain flags (s.mark flags id) (s.ancestors id)) :=
    (nodesOnly_modify s id _).trans (nodesOnly_markChain flags _ _)
  rw [touch, if_pos hid, clock_schedule]
  rw [NodesOnly] at hnodes
  rw [hnodes]
  rfl

/-- A touch asks for an update. -/
theorem prompts_touch (s : Scene R) (id : NodeId) (flags : Flags) :
    Prompts s (s.touch id flags) := by
  by_cases hid : s.contains id = true
  · have hnodes : NodesOnly s (markChain flags (s.mark flags id) (s.ancestors id)) :=
      (nodesOnly_modify s id _).trans (nodesOnly_markChain flags _ _)
    have hclock := clock_touch hid flags
    refine ⟨.inr hclock, fun hnone => ?_, ?_, ?_⟩
    · exact absurd ((congrArg Clock.pending hclock).symm.trans hnone)
        s.clock.pending_rung_ne_none
    · rw [touch, if_pos hid, (schedule_eq _).1]
      rw [NodesOnly] at hnodes
      rw [hnodes]
    · rw [touch, if_pos hid, (schedule_eq _).2]
      rw [NodesOnly] at hnodes
      rw [hnodes]
  · rw [touch, if_neg hid]
    exact .refl s

theorem Revised.prompts (h : Revised s s') : Prompts s s' := by
  cases h with
  | same => exact .refl s
  | touched hrev =>
    exact (Prompts.of_agree hrev.nodesOnly (hrev.same.map fun part => part.2.1)).trans
      (prompts_touch _ _ _)

/-! ## Freeing nodes -/

theorem prompts_dropReference (target : NodeId) (s : Scene R) (k : Link) :
    Prompts s (dropReference target s k) :=
  (Prompts.of_agree (nodesOnly_modify s k.node _)
    (.modify fun n _ => stale_withoutTarget target k.role n)).trans (prompts_touch _ _ _)

/-- Freeing a node asks for an update if it touches a subscriber, and damages nothing. -/
theorem prompts_release (s : Scene R) (id : NodeId) : Prompts s (s.release id) := by
  rw [release]
  split
  · exact .refl s
  next n _ =>
    have hclear : Prompts s (s.modify id fun n => { n with subscribers := [], references := [] }) :=
      .of_agree (nodesOnly_modify s id _) (.modify fun _ _ => rfl)
    have hforget : ∀ (s : Scene R) (l : Link), Prompts s (s.unlink id l.node l.role) := fun s l =>
      .of_agree (nodesOnly_unlink s id l.node l.role) (agree_unlink (fun _ _ _ => rfl) s id _ _)
    refine ((hclear.trans (.foldl (prompts_dropReference id) n.subscribers _)).trans
      (.foldl hforget n.references _)).trans (.of_nodesOnly rfl fun j hj => ?_)
    obtain ⟨m, hm, hstale⟩ := hj
    rw [node?_free] at hm
    split at hm
    · cases hm
    · exact ⟨m, hm, hstale⟩

variable [Scalar R] {kind : Kind R} {p : NodeId} {m : Node R} {freed : List NodeId}

/-- The box of a removed node is damaged; apart from that, removing asks for an update only. -/
theorem prompts_remove (h : s.remove id = .ok (s', freed)) :
    ∃ n, s.node? id = some n ∧ Prompts (s.addDamage n.box) s' := by
  obtain ⟨-, n, hn, -, rfl⟩ := eq_of_remove_eq_ok h
  have hcut : Prompts (s.addDamage n.box) (s.cut id n) := by
    simp only [cut, detach]
    cases n.parent with
    | none => exact .refl _
    | some p => exact .of_agree (nodesOnly_modify (s.addDamage n.box) p _) (.modify fun _ _ => rfl)
  refine ⟨n, hn, (hcut.trans (.foldl prompts_release freed _)).trans ?_⟩
  simp only [touchParent]
  cases n.parent with
  | none => exact .refl _
  | some p => exact prompts_touch _ p _

theorem Prompts.addDamage (h : Prompts s s') (area : Option (Rect R)) :
    Prompts (s.addDamage area) (s'.addDamage area) where
  rings := h.rings
  alert := h.alert
  damage := congrArg (fun damage => Rect.join damage area) h.damage
  maxPasses := h.maxPasses

theorem addDamage_none (s : Scene R) : s.addDamage none = s := by
  cases s with
  | mk nodes root maxPasses pending lastToken damage stats => cases damage <;> rfl

/-! ## Adding nodes -/

/-- A new node asks for an update, as its parent is touched. -/
theorem prompts_insertChild (hs : s.Sound) (hfits : (s.plant p kind).nodes.Fits)
    (hp : s.node? p = some m) : Prompts s (s.insertChild p kind).2 := by
  have hplant : s.plant p kind = { s with nodes := (s.plant p kind).nodes } := rfl
  have hclock : s.clock = (s.plant p kind).clock := by rw [hplant]; rfl
  have htouch := prompts_touch (s.plant p kind) p .membership
  have htouches := htouch.trans (prompts_touch _ (s.nextId p kind) .created)
  -- the new node is there to be marked, so an update is outstanding afterwards
  have hrung := clock_touch (contains_of_node? (node?_plant_of_node? hs.valid hfits hp)) .membership
  refine ⟨hclock ▸ htouches.rings, fun hnone => ?_, htouches.damage, htouches.maxPasses⟩
  have hsame : (s.insertChild p kind).2.clock = ((s.plant p kind).touch p .membership).clock :=
    (prompts_touch _ (s.nextId p kind) .created).rings.eq_of_none hnone
  rw [hrung] at hsame
  exact absurd ((congrArg Clock.pending hsame).symm.trans hnone) (Clock.pending_rung_ne_none _)

/-- What taking back a new node damages is the box of that node; nothing else is damaged. -/
theorem Added.prompts (h : Added s p kind s' freed) (hs : s.Sound) (hfits : s'.nodes.Fits) :
    ∃ area, Prompts (s.addDamage area) s' := by
  cases h with
  | refused => exact ⟨none, (addDamage_none s).symm ▸ .refl s⟩
  | inserted hp hgroup =>
    have hplant := (stays_insertChild s p (unlinked kind)).fits hfits
    exact ⟨none, (addDamage_none s).symm ▸ prompts_insertChild hs hplant hp⟩
  | linked hp hgroup hlink =>
    have hrev := (revised_linkClone hlink).revised
    have hplant := (stays_insertChild s p (unlinked kind)).fits (hrev.stays.fits hfits)
    exact ⟨none, (addDamage_none s).symm ▸ (prompts_insertChild hs hplant hp).trans hrev.prompts⟩
  | takenBack hp hgroup hremove =>
    have hplant := (stays_insertChild s p (unlinked kind)).fits ((stays_remove hremove).fits hfits)
    have hinsert := prompts_insertChild hs hplant hp
    obtain ⟨n, -, hprompts⟩ := prompts_remove hremove
    exact ⟨n.box, (hinsert.addDamage n.box).trans hprompts⟩

end Scene

end Freehand
