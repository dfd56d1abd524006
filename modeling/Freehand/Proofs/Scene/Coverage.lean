import Freehand.Proofs.Scene.Alteration
import Freehand.Proofs.Scene.Exact

/-!
# Damage covers what changes

Between two settled scenes all damage that is taken, and what is left in the end, covers the old and
the new box of every node that looks different, as far as the node was or is shown
(`Conduct.damage_covers`).  Groups are nothing to look at by themselves.

The invariant is `Scene.Repaints`.  A box that was shown is covered, or it still stands: the node
has it and all groups above enclose it, so removing one of them damages it, and hiding one of them
leaves a mark that a pass turns into damage.  A box that shows is covered, or there is a mark left,
or the node looks as it did.
-/

namespace Freehand

open Scene
open Rect (Covers)

variable {R ω : Type}

/-- What there is to see of a node, if it is shown. -/
def Node.look (n : Node R) : Kind R × Style R × Affine R × R × Option (Rect R) :=
  (n.kind, n.style, n.world, n.opacity, n.box)

namespace Scene

variable {s s' s₀ : Scene R} {id j : NodeId} {n n' m : Node R} [Scalar R]

/-! ## What is painted between two settled scenes -/

/-- The node still has the box, and so have all groups above it; those that are hidden are
marked. -/
structure Stands (s : Scene R) (id : NodeId) (box : Option (Rect R)) : Prop where
  node : ∃ n, s.node? id = some n ∧ n.kind.isGroup = false ∧ n.box = box
  above : ∀ ⦃j m⦄, s.Above j id → s.node? j = some m →
    Covers m.box box ∧ (m.hidden = true → m.stale.style = true)

/-- The area covers what was painted of the scene `s₀` unless it still stands, and what `s` paints
unless there is a mark left or it was painted the same way. -/
structure Repaints (s₀ : Scene R) (area : Option (Rect R)) (s : Scene R) : Prop where
  enclosing : s.Enclosing
  old : ∀ ⦃id n₀⦄, s₀.node? id = some n₀ → n₀.kind.isGroup = false → s₀.Shown id →
    Covers area n₀.box ∨ s.Stands id n₀.box
  new : ∀ ⦃id n⦄, s.node? id = some n → n.kind.isGroup = false →
    Covers area n.box ∨ n.stale ≠ ∅ ∨
    (∃ j m, s.Above j id ∧ s.node? j = some m ∧ (m.hidden = true ∨ m.stale.style = true)) ∨
    ∃ n₀, s₀.node? id = some n₀ ∧ s₀.Shown id ∧ n.look = n₀.look

/-- A node that has no marks looks as it did. -/
theorem Alters.look_eq (h : Alters s s') (hn : s.node? id = some n) (hn' : s'.node? id = some n')
    (hstale : n'.stale = ∅) : n'.look = n.look := by
  obtain ⟨k, hk, -, hraw, hcaches⟩ := h.edited.node? hn' hstale
  rw [hn] at hk
  cases hk
  simp only [Node.raw, Node.caches, Prod.mk.injEq] at hraw hcaches
  simp only [Node.look, hraw, hcaches]

section

variable (hlaw : Scalar.Ordered R)
include hlaw

/-- A pass damages the box of a shown node that is below one with a stale style. -/
theorem Enclosing.covers_of_style (h : s.Enclosing) (hs : s.Sound) (hn : s.node? id = some n)
    (hshown : s.Shown id) (hup : s.Above j id) (hm : s.node? j = some m)
    (hstyle : m.stale.style = true) : Covers s.updatePass.damage n.box := by
  rcases h.climb hlaw hs.tree hup hshown hn hm with hcovers | ⟨k, l, -, hl, hstyle', hcovers⟩
  · exact (hs.covers_of_style hlaw hm hstyle).trans hlaw hcovers
  · exact (hs.covers_of_style hlaw hl hstyle').trans hlaw hcovers

/-- When nothing is stale, the boxes of the groups above a shown node cover its box. -/
theorem Enclosing.covers_of_clean (h : s.Enclosing) (hs : s.Tree)
    (hclean : ∀ ⦃id n⦄, s.node? id = some n → n.stale = ∅) (hn : s.node? id = some n)
    (hshown : s.Shown id) (hup : s.Above j id) (hm : s.node? j = some m) : Covers m.box n.box := by
  rcases h.climb hlaw hs hup hshown hn hm with hcovers | ⟨k, l, -, hl, hstyle, -⟩
  · exact hcovers
  · rw [hclean hl] at hstyle
    cases hstyle

/-- What removes a node damages the boxes that stood below it. -/
theorem Stands.of_alters {box : Option (Rect R)} (h : s.Stands id box) (halters : Alters s s')
    (hs : s.Tree) (hs' : s'.Tree) : Covers s'.damage box ∨ s'.Stands id box := by
  obtain ⟨⟨n, hn, hgroup, hsame⟩, habove⟩ := h
  cases hn' : s'.node? id with
  | none =>
    obtain ⟨d, m, hup, hm, hdamage⟩ := halters.gone hn hn'
    exact .inl (hdamage.trans hlaw (habove hup hm).1)
  | some n' =>
    refine .inr ⟨⟨n', hn', (halters.place hn hn').1.trans hgroup,
      (halters.box_eq hn hn').trans hsame⟩, fun j m' hup' hm' => ?_⟩
    have hup := halters.of_above hs hs' hup' hn hn'
    obtain ⟨m, hm⟩ := hs.node?_of_above hn hup
    obtain ⟨hsub, hhidden⟩ := halters.marks hm hm'
    rw [halters.box_eq hm hm']
    refine ⟨(habove hup hm).1, fun hhidden' => ?_⟩
    rcases hhidden with hkept | hmarked
    · exact (Flags.subset_iff.1 hsub).2.1 ((habove hup hm).2 (hkept ▸ hhidden'))
    · exact hmarked

/-- A pass damages a box that stood, or the box stands after it. -/
theorem Stands.updatePass {box : Option (Rect R)} (h : s.Stands id box) (hs : s.Sound)
    (henclosing : s.Enclosing) :
    Covers s.updatePass.damage box ∨ s.updatePass.Stands id box := by
  obtain ⟨⟨n, hn, hgroup, hsame⟩, habove⟩ := h
  have hpass := hs.tree.repainted_updatePass hlaw
  by_cases hstyle : ∃ j m, s.Above j id ∧ s.node? j = some m ∧ m.stale.style = true
  · obtain ⟨j, m, hj, hm, hstyle⟩ := hstyle
    exact .inl ((hs.covers_of_style hlaw hm hstyle).trans hlaw (habove hj hm).1)
  · obtain ⟨n', hn', -⟩ := hpass.nodes.node? hn
    rcases hpass.changed hn hn' hgroup with rfl | ⟨hold, -⟩
    · -- no mark means that nothing above the node is hidden, so groups enclose it again
      have hshown : s.Shown id := by
        intro j m hj hm
        rw [← Bool.not_eq_true]
        exact fun hhidden => hstyle ⟨j, m, hj, hm, (habove hj hm).2 hhidden⟩
      have hshown' : s.updatePass.Shown id :=
        (shown_iff_of_agree (agree_updatePass (fun _ _ _ _ _ _ => rfl) s)).2 hshown
      refine .inr ⟨⟨n', hn', hgroup, hsame⟩, fun j m' hj hm' => ⟨?_, fun hhidden => ?_⟩⟩
      · rw [← hsame]
        exact (henclosing.updatePass hlaw hs).covers_of_clean hlaw hs.updatePass.tree
          (fun _ _ hl => hs.stale_updatePass hl) hn' hshown' hj hm'
      · rw [hshown' hj hm'] at hhidden
        cases hhidden
    · exact .inl (hsame ▸ hold)

end

namespace Repaints

variable (hlaw : Scalar.Ordered R) {area : Option (Rect R)}
include hlaw

/-- At first everything is as it was. -/
theorem of_clean (hs : s₀.Sound) (henclosing : s₀.Enclosing)
    (hclean : ∀ ⦃id n⦄, s₀.node? id = some n → n.stale = ∅) (area : Option (Rect R)) :
    Repaints s₀ area s₀ := by
  refine ⟨henclosing, fun id n hn hgroup hshown =>
    .inr ⟨⟨n, hn, hgroup, rfl⟩, fun j m hup hm => ?_⟩, fun id n hn _ => ?_⟩
  · refine ⟨henclosing.covers_of_clean hlaw hs.tree hclean hn hshown hup hm, fun hhidden => ?_⟩
    rw [hshown hup hm] at hhidden
    cases hhidden
  · by_cases hshown : s₀.Shown id
    · exact .inr (.inr (.inr ⟨n, hn, hshown, rfl⟩))
    · obtain ⟨j, m, hup, hm, hhidden⟩ := not_shown_iff.1 hshown
      exact .inr (.inr (.inl ⟨j, m, hup, hm, .inl hhidden⟩))

/-- An alteration of a scene keeps the account: what no longer stands is damaged, and what looks
different is marked. -/
theorem of_alters (h : Repaints s₀ (Rect.join area s.damage) s) (halters : Alters s s')
    (hs : s.Tree) (hs' : s'.Tree) : Repaints s₀ (Rect.join area s'.damage) s' := by
  have hgrows : ∀ {box}, Covers (Rect.join area s.damage) box →
      Covers (Rect.join area s'.damage) box := fun hbox =>
    (halters.damage.join_mono hlaw area).trans hlaw hbox
  refine ⟨h.enclosing.of_alters halters hs, fun id n₀ hn₀ hgroup₀ hshown₀ => ?_,
    fun id n' hn' hgroup' => ?_⟩
  · rcases h.old hn₀ hgroup₀ hshown₀ with hcovers | hstands
    · exact .inl (hgrows hcovers)
    · exact (hstands.of_alters hlaw halters hs hs').imp_left fun hcovers =>
        (Covers.join_right hlaw area _).trans hlaw hcovers
  · cases hn : s.node? id with
    | none =>
      exact .inr (.inr (.inl ⟨id, n', .refl s' id, hn', .inr (halters.fresh hn hn')⟩))
    | some n =>
      rcases h.new hn ((halters.place hn hn').1.symm.trans hgroup') with
        hcovers | hstale | ⟨j, m, hup, hm, hmark⟩ | ⟨n₀, hn₀, hshown₀, hlook⟩
      · exact .inl (halters.box_eq hn hn' ▸ hgrows hcovers)
      · exact .inr (.inl (Flags.ne_empty_of_subset (halters.marks hn hn').1 hstale))
      · have hup' := halters.above hs hs' hup hn hn'
        obtain ⟨m', hm'⟩ := hs'.node?_of_above hn' hup'
        obtain ⟨hsub, hhidden⟩ := halters.marks hm hm'
        refine .inr (.inr (.inl ⟨j, m', hup', hm', ?_⟩))
        rcases hmark with hhid | hstyle
        · exact hhidden.imp_left fun hkept => hkept.trans hhid
        · exact .inr ((Flags.subset_iff.1 hsub).2.1 hstyle)
      · by_cases hstale : n'.stale = ∅
        · exact .inr (.inr (.inr ⟨n₀, hn₀, hshown₀, (halters.look_eq hn hn' hstale).trans hlook⟩))
        · exact .inr (.inl hstale)

/-- A pass damages what it repaints, and turns marks into damage. -/
theorem updatePass (h : Repaints s₀ (Rect.join area s.damage) s) (hs : s.Sound) :
    Repaints s₀ (Rect.join area s.updatePass.damage) s.updatePass := by
  have hpass := hs.tree.repainted_updatePass hlaw
  have hgrows : ∀ {box}, Covers (Rect.join area s.damage) box →
      Covers (Rect.join area s.updatePass.damage) box := fun hbox =>
    (hpass.damage.join_mono hlaw area).trans hlaw hbox
  have hdamaged : ∀ {box}, Covers s.updatePass.damage box →
      Covers (Rect.join area s.updatePass.damage) box := fun hbox =>
    (Covers.join_right hlaw area _).trans hlaw hbox
  refine ⟨h.enclosing.updatePass hlaw hs, fun id n₀ hn₀ hgroup₀ hshown₀ => ?_,
    fun id n' hn' hgroup' => ?_⟩
  · rcases h.old hn₀ hgroup₀ hshown₀ with hcovers | hstands
    · exact .inl (hgrows hcovers)
    · exact (hstands.updatePass hlaw hs h.enclosing).imp_left hdamaged
  · obtain ⟨n, hn, hgroup⟩ := hpass.nodes.symm.node? hn'
    rcases hpass.changed hn hn' (hgroup.trans hgroup') with rfl | ⟨-, hnew⟩
    · rcases h.new hn hgroup' with hcovers | hstale | ⟨j, m, hj, hm, hmark⟩ | hsame
      · exact .inl (hgrows hcovers)
      · exact absurd (hs.stale_updatePass hn') hstale
      · by_cases hshown : s.Shown id
        · have hstyle : m.stale.style = true :=
            hmark.resolve_left fun hhid => by rw [hshown hj hm] at hhid; cases hhid
          exact .inl (hdamaged (h.enclosing.covers_of_style hlaw hs hn hshown hj hm hstyle))
        · have hshown' : ¬s.updatePass.Shown id := fun hall => hshown
            ((shown_iff_of_agree (agree_updatePass (fun _ _ _ _ _ _ => rfl) s)).1 hall)
          obtain ⟨k, l, hk, hl, hhid⟩ := not_shown_iff.1 hshown'
          exact .inr (.inr (.inl ⟨k, l, hk, hl, .inl hhid⟩))
      · exact .inr (.inr (.inr hsame))
    · exact .inl (hdamaged hnew)

end Repaints

end Scene

/-! ## Damage that is taken -/

/-- The damage that a command took. -/
def Entry.taken : Entry R ω → Option (Rect R)
  | .ended .takeDamage before _ none => before.damage
  | _ => none

/-- All damage that was taken. -/
def Journal.taken [Scalar R] (J : Journal R ω) : Option (Rect R) :=
  J.foldl (fun area e => Rect.join area e.taken) none

variable [Scalar R]

theorem Journal.taken_append (J : Journal R ω) (e : Entry R ω) :
    Journal.taken (J ++ [e]) = Rect.join J.taken e.taken := by
  rw [taken, List.foldl_append]
  rfl

theorem Rect.join_none (a : Option (Rect R)) : Rect.join a none = a := by
  cases a <;> rfl

theorem Journal.taken_append_of_none {J : Journal R ω} {e : Entry R ω} (h : e.taken = none) :
    Journal.taken (J ++ [e]) = J.taken := by
  rw [taken_append, h, Rect.join_none]

namespace Scene

variable {s s' s₀ : Scene R} {id : NodeId} {n n₀ : Node R}

namespace Repaints

variable (hlaw : Scalar.Ordered R) {area : Option (Rect R)}
include hlaw

omit hlaw in
/-- Only the nodes matter. -/
theorem congr (h : Repaints s₀ area s) (hnodes : s'.nodes = s.nodes) : Repaints s₀ area s' := by
  have hnode : ∀ id, s'.node? id = s.node? id := fun id => by rw [node?, node?, hnodes]
  have hparent : ∀ id, s'.parent? id = s.parent? id := fun id => by rw [parent?, parent?, hnode]
  have habove : ∀ j id, s'.Above j id ↔ s.Above j id := by
    intro j id
    simp only [Above, hparent]
  refine ⟨?_, fun id n₀ hn₀ hgroup₀ hshown₀ => ?_, ?_⟩
  · simpa only [Enclosing, hnode] using h.enclosing
  · refine (h.old hn₀ hgroup₀ hshown₀).imp_right fun hstands => ⟨?_, ?_⟩
    · simpa only [hnode] using hstands.node
    · simpa only [hnode, habove] using hstands.above
  · simpa only [hnode, habove] using h.new

/-- So does every command that is no update, whatever part of the damage it takes. -/
theorem effect (h : Repaints s₀ (Rect.join area s.damage) s) (hs : s.Sound)
    (command : Command R ω) (hfits : (command.effect s).nodes.Fits) :
    Repaints s₀ (Rect.join (Rect.join area (Entry.ended command s (command.effect s) none).taken)
      (command.effect s).damage) (command.effect s) := by
  have hchange : ∀ {s s' : Scene R}, s.Sound → s'.nodes.Fits → Change s s' →
      Repaints s₀ (Rect.join area s.damage) s → Repaints s₀ (Rect.join area s'.damage) s' :=
    fun hs hfits hchange h => h.of_alters hlaw (hchange.alters hlaw hs hfits) hs.tree
      (hchange.sound hs hfits).tree
  cases command with
  | edit e =>
    simp only [Entry.taken, Rect.join_none]
    simp only [Command.effect] at hfits ⊢
    split
    next he => exact hchange hs (by simpa only [he] using hfits) (.revised (revised_apply e he)) h
    next => exact h
  | addChild parent kind =>
    simp only [Entry.taken, Rect.join_none]
    exact (added_addChild s parent kind).changes
      (P := fun s => Repaints s₀ (Rect.join area s.damage) s) hchange hs hfits h
  | remove id =>
    simp only [Entry.taken, Rect.join_none]
    simp only [Command.effect] at hfits ⊢
    split
    next hrem => exact hchange hs (by simpa only [hrem] using hfits) (.removed hrem) h
    next => exact h
  | takeDamage =>
    show Repaints s₀ (Rect.join (Rect.join area s.damage) none) _
    rw [Rect.join_none]
    exact h.congr rfl
  | settle | runPending | addObserver | removeObserver _ | record _ =>
    simp only [Entry.taken, Rect.join_none]
    exact h

end Repaints

/-- What was painted at first is accounted for all along a course. -/
theorem Course.repaints (hlaw : Scalar.Ordered R) {x y : Scene R × Journal R ω} (h : Course x y)
    (hfits : y.1.nodes.Fits) (hs : x.1.Sound)
    (hx : Repaints s₀ (Rect.join x.2.taken x.1.damage) x.1) :
    Repaints s₀ (Rect.join y.2.taken y.1.damage) y.1 := by
  refine (h.induct (P := fun x => Repaints s₀ (Rect.join x.2.taken x.1.damage) x.1) hfits hs hx
    fun y z hmove hs hs' hfits h => ?_).2
  cases hmove with
  | began command =>
    rw [Journal.taken_append_of_none rfl]
    exact h
  | marked id flags => exact h.of_alters hlaw (.touch hlaw _ id flags) hs.tree hs'.tree
  | recomputed => exact h.updatePass hlaw hs
  | hushed id =>
    exact h.of_alters hlaw (.of_agree hlaw (agree_hush (fun _ _ => rfl) _ id) rfl) hs.tree hs'.tree
  | counted => exact h.congr rfl
  | ended command =>
    rw [Journal.taken_append]
    exact h.effect hlaw hs command hfits
  | @settled _ _ _ command =>
    rw [Journal.taken_append_of_none (by cases command <;> rfl)]
    exact h.congr rfl
  | @abandoned _ _ _ command =>
    rw [Journal.taken_append_of_none (by cases command <;> rfl)]
    exact h.congr rfl

theorem enclosing_new (maxPasses : Nat) : (new maxPasses : Scene R).Enclosing := by
  intro c p n m hn hparent
  rw [(eq_of_node?_new hn).2] at hparent
  cases hparent

theorem Reachable.enclosing (hlaw : Scalar.Ordered R) (h : s.Reachable) (hfits : s.nodes.Fits) :
    s.Enclosing := by
  obtain ⟨ω, maxPasses, J, hcourse⟩ := h.course
  refine (hcourse.repaints hlaw hfits (sound_new maxPasses) (.of_clean hlaw (sound_new maxPasses)
    (enclosing_new maxPasses) (fun id n hn => ?_) _)).enclosing
  rw [(eq_of_node?_new hn).2]
  rfl

/-! ## Nodes that look different -/

/-- What there is to see of a node, and whether it is shown. -/
def look (s : Scene R) (id : NodeId) :
    Option ((Kind R × Style R × Affine R × R × Option (Rect R)) × Bool) :=
  (s.node? id).map fun n => (n.look, !s.isEffectivelyHidden id)

section

variable {area : Option (Rect R)} (h : Repaints s₀ area s) (hs₀ : s₀.Tree) (hs : s.Tree)
  (hclean : ∀ ⦃id n⦄, s.node? id = some n → n.stale = ∅) (hne : s.look id ≠ s₀.look id)
include h hs₀ hs hclean hne

/-- Where nothing is stale, whatever is shown and looks different is covered. -/
theorem Repaints.covers_new (hn : s.node? id = some n) (hgroup : n.kind.isGroup = false)
    (hshown : s.Shown id) : Covers area n.box := by
  rcases h.new hn hgroup with hcovers | hstale | ⟨j, m, hup, hm, hhidden | hstyle⟩ |
    ⟨n₀, hn₀, hshown₀, hlook⟩
  · exact hcovers
  · exact absurd (hclean hn) hstale
  · rw [hshown hup hm] at hhidden
    cases hhidden
  · rw [hclean hm] at hstyle
    cases hstyle
  · refine absurd ?_ hne
    rw [look, look, hn, hn₀, Option.map_some, Option.map_some, hlook,
      hs.grounded.shown_iff.2 hshown, hs₀.grounded.shown_iff.2 hshown₀]

theorem Repaints.covers_old (hn₀ : s₀.node? id = some n₀) (hgroup₀ : n₀.kind.isGroup = false)
    (hshown₀ : s₀.Shown id) : Covers area n₀.box := by
  rcases h.old hn₀ hgroup₀ hshown₀ with hcovers | ⟨⟨n, hn, hgroup, hbox⟩, habove⟩
  · exact hcovers
  · rw [← hbox]
    refine h.covers_new hs₀ hs hclean hne hn hgroup fun j m hup hm => ?_
    rw [← Bool.not_eq_true]
    intro hhidden
    have hstyle := (habove hup hm).2 hhidden
    rw [hclean hm] at hstyle
    cases hstyle

end

end Scene

/-- Between a settled scene and one after an update that settled, all damage that was taken and what
is left covers the old and the new box of every node that looks different, as far as the node was or
is shown. -/
theorem Conduct.damage_covers (hlaw : Scalar.Ordered R) (c : Conduct R ω) (depth : Nat)
    {st₀ st : Stage R ω} (hreach : st₀.scene.Reachable) (hclean : st₀.scene.isDirty = false)
    (commands : List (Command R ω))
    (hsettle : Stage.settle (c.listener depth) (Stage.run (c.listener depth) commands st₀) =
      (.ok (), st)) (hfits : st.scene.nodes.Fits) {noted : Stage R (ω × Journal R ω)}
    (hnoted : noted = Stage.runNoted (c.noted depth) (commands ++ [.settle])
      (st₀.mapWorld fun w => (w, []))) {id : NodeId}
    (hne : st.scene.look id ≠ st₀.scene.look id) :
    (∀ n, st₀.scene.node? id = some n → n.kind.isGroup = false →
      st₀.scene.isEffectivelyHidden id = false →
      Covers (Rect.join noted.world.2.taken st.scene.damage) n.box) ∧
    ∀ n, st.scene.node? id = some n → n.kind.isGroup = false →
      st.scene.isEffectivelyHidden id = false →
      Covers (Rect.join noted.world.2.taken st.scene.damage) n.box := by
  have hcourse := c.course depth (commands ++ [.settle]) (st₀.mapWorld fun w => (w, []))
  have hbare := c.run_noted depth (commands ++ [.settle]) (st₀.mapWorld fun w => (w, []))
  rw [← hnoted] at hcourse hbare
  have hscene : noted.scene = st.scene := by
    refine (congrArg Stage.scene hbare).trans ?_
    rw [Stage.run, List.foldl_append]
    exact congrArg (fun settled => settled.2.scene) hsettle
  have hhistory : noted.history = (st.scene, noted.world.2) := Prod.ext hscene rfl
  rw [hhistory] at hcourse
  have hfits₀ : st₀.scene.nodes.Fits := Nat.le_trans hcourse.slots hfits
  have hs₀ := hreach.sound hfits₀
  have hs := hcourse.sound hfits hs₀
  have hrepaints : Repaints st₀.scene _ _ := hcourse.repaints hlaw hfits hs₀
    (.of_clean hlaw hs₀ (hreach.enclosing hlaw hfits₀)
      (fun _ _ hn => hs₀.stale_of_not_isDirty hclean hn) _)
  have hdone := Stage.not_isDirty_settle (congrArg Prod.fst hsettle)
  rw [hsettle] at hdone
  have hstale : ∀ ⦃id n⦄, st.scene.node? id = some n → n.stale = ∅ :=
    fun _ _ hn => hs.stale_of_not_isDirty hdone hn
  exact ⟨fun n hn hgroup hshown => hrepaints.covers_old hs₀.tree hs.tree hstale hne hn hgroup
      (hs₀.tree.grounded.shown_iff.1 hshown),
    fun n hn hgroup hshown => hrepaints.covers_new hs₀.tree hs.tree hstale hne hn hgroup
      (hs.tree.grounded.shown_iff.1 hshown)⟩

/-! ## A line that moves while its group is hidden and removed -/

theorem eq_ok_of_toBool {ε α : Type} {x : Except ε α} (h : x.toBool = true) : ∃ a, x = .ok a := by
  cases x with
  | ok a => exact ⟨a, rfl⟩
  | error e => cases h

/-- A line in a group, after an update. -/
def Stage.drawn : Stage Int Unit :=
  run (Conduct.silent.listener 0)
    [.addChild ⟨0, 0⟩ (.group false), .addChild ⟨1, 0⟩ (.path [.moveTo ⟨0, 0⟩, .lineTo ⟨2, 1⟩]),
      .settle, .takeDamage] (ofScene (Scene.new 16) ())

/-- The line is moved and its group hidden, and the damage taken; then the group is removed. -/
def Stage.discarding : List (Command Int Unit) :=
  [.edit (.setTransform ⟨2, 0⟩ ⟨1, 0, 0, 1, 5, 7⟩), .edit (.setHidden ⟨1, 0⟩ true), .settle,
    .takeDamage, .remove ⟨1, 0⟩]

/-- What the update made of that. -/
def Stage.discarded : Except UpdateError Unit × Stage Int Unit :=
  settle (Conduct.silent.listener 0) (run (Conduct.silent.listener 0) discarding drawn)

theorem Conduct.damage_covers_discarded : ∃ n, Stage.drawn.scene.node? ⟨2, 0⟩ = some n ∧
    Covers (Rect.join (Stage.runNoted (Conduct.silent.noted 0) (Stage.discarding ++ [.settle])
      (Stage.drawn.mapWorld fun w => (w, []))).world.2.taken Stage.discarded.2.scene.damage)
      n.box := by
  have hpath : (Stage.drawn.scene.node? ⟨2, 0⟩).any (fun n => !n.kind.isGroup) = true := by
    decide +kernel
  obtain ⟨n, hn, hgroup⟩ := (Option.any_eq_true _ _).1 hpath
  have hok : Stage.discarded.1.toBool = true := by decide +kernel
  obtain ⟨u, hanswer⟩ := eq_ok_of_toBool hok
  have hsettle : Stage.discarded = (.ok (), Stage.discarded.2) := Prod.ext hanswer rfl
  have hgone : (Stage.discarded.2.scene.look ⟨2, 0⟩).isNone = true := by decide +kernel
  have hne : Stage.discarded.2.scene.look ⟨2, 0⟩ ≠ Stage.drawn.scene.look ⟨2, 0⟩ := by
    rw [Option.isNone_iff_eq_none.1 hgone, look, hn]
    exact nofun
  have hreach : Stage.drawn.scene.Reachable := ⟨Unit, Conduct.silent, 0, 16, (), _, rfl⟩
  obtain ⟨hold, -⟩ := Conduct.silent.damage_covers Scalar.ordered_integers 0 hreach
    (by decide +kernel) Stage.discarding hsettle (by decide +kernel) rfl hne
  exact ⟨n, hn, hold n hn (by simpa using hgroup) (by decide +kernel)⟩

end Freehand
