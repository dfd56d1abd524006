import Freehand.Proofs.Scene.Divergence
import Freehand.Proofs.Scene.Linking

/-!
# Cycles of clones

Clones can show each other: a clone may be linked to any node that is not above it.  The runs whose
scenes are free of cycles are those in which no clone is linked to a node that leads to it already
(`Conduct.acyclic_unless_linked`).  Their scenes are drawn in finite depth, and as many passes as
there are nodes are enough for an update, unless gradients are painted with each other or a
placement is no number.

Without these conditions there need not be any number of passes that is enough
(`Stage.cycles_unsettled`).
-/

namespace Freehand

open Scene
open Relation (TransGen ReflTransGen)

variable {R ω : Type} [Scalar R]

/-- As many passes as there are nodes let a scene settle in which nodes depend on each other in no
cycle. -/
theorem Stage.settle_of_acyclic (hlaw : Scalar.Steady R) {c : Conduct R ω} (hc : c.Gentle)
    (depth : Nat) {st : Stage R ω} (hs : st.scene.Sound) (hquiet : ∀ j, ¬st.scene.News j)
    (hpoised : st.scene.Poised) (hfits : st.scene.nodes.Fits) (hnumeric : st.scene.Numeric)
    (hneeds : Acyclic st.scene.Needs) (hlimit : st.scene.size ≤ st.scene.maxPasses) :
    (settle (c.listener depth) st).1 = .ok () := by
  have hsize : 0 < st.scene.size := hs.length_le_size hfits hneeds
    (fun _ _ hab => hs.node?_of_needs hab) (.singleton st.scene.root)
  have hroutes : ∀ ⦃k a b⦄, st.scene.Route k a b → k ≤ st.scene.size - 1 := fun _ _ _ hroute =>
    Nat.le_sub_one_of_lt (hs.route_lt_size hfits hneeds hroute)
  obtain ⟨k, -, hsettle⟩ := settleWithin_converges hlaw hc depth hs hquiet hpoised hfits hnumeric
    hroutes (show st.scene.size - 1 + 1 ≤ st.scene.maxPasses by omega)
  simp [settle, hsettle]

/-- The same with another number of passes allowed. -/
theorem Scene.Reachable.settle_of_acyclic (hlaw : Scalar.Steady R) {c : Conduct R ω}
    (hc : c.Gentle) (depth : Nat) {st : Stage R ω} (hreach : st.scene.Reachable)
    (hfits : st.scene.nodes.Fits) (hnumeric : st.scene.Numeric) (hneeds : Acyclic st.scene.Needs)
    {limit : Nat} (hlimit : st.scene.size ≤ limit) :
    (Stage.settle (c.listener depth) { st with scene.maxPasses := limit }).1 = .ok () := by
  have hs := hreach.sound hfits
  have hs' : ({ st.scene with maxPasses := limit } : Scene R).Sound := hs.of_nodes_eq rfl rfl
  have hquiet : ∀ j, ¬({ st.scene with maxPasses := limit } : Scene R).News j :=
    hreach.not_news hfits
  have hpoised : ({ st.scene with maxPasses := limit } : Scene R).Poised :=
    (hreach.poised hlaw hfits).of_edited hs hs' (edited_of_nodes_eq rfl)
  have hnumeric' : ({ st.scene with maxPasses := limit } : Scene R).Numeric :=
    fun _ _ _ hcomposed => hnumeric (hcomposed.of_agree rfl (.of_node?_eq fun _ => rfl))
  have hneeds' : Acyclic ({ st.scene with maxPasses := limit } : Scene R).Needs :=
    hneeds.mono fun _ _ hab => hab
  exact Stage.settle_of_acyclic hlaw hc depth hs' hquiet hpoised hfits hnumeric' hneeds' hlimit

namespace Conduct

/-- Every cycle of children and clones runs through two clones, and all scenes of a run are free of
cycles exactly if no clone is linked to a node that leads to it.

Then no way from a node is longer than there are nodes, and as many passes as there are nodes let
the scene settle, if gradients are painted with each other in no cycle, all placements are numbers,
and observers change no node meanwhile. -/
theorem acyclic_unless_linked (c : Conduct R ω) (depth maxPasses : Nat) (w : ω)
    (commands : List (Command R ω)) {st : Stage R (ω × Journal R ω)}
    (hrun : Stage.runNoted (c.noted depth) commands (Stage.ofScene (new maxPasses) (w, [])) = st)
    (hfits : st.scene.nodes.Fits) :
    (∀ e ∈ st.world.2, ∀ id, TransGen e.scene.Leads id id → ∃ a b t u, a ≠ b ∧
      e.scene.Reaches id a ∧ e.scene.Reaches a id ∧
      e.scene.held? a .cloneSource = some t ∧ e.scene.Reaches t b ∧
      e.scene.held? b .cloneSource = some u ∧ e.scene.Reaches u a) ∧
    ((∀ e ∈ st.world.2, Acyclic e.scene.Leads) ↔
      ∀ command before after, .ended command before after none ∈ st.world.2 →
        ¬command.Closes before) ∧
    ((∀ command before after, .ended command before after none ∈ st.world.2 →
        ¬command.Closes before) →
      Acyclic st.scene.Leads ∧
      (∀ e ∈ st.world.2, ∀ ids : List NodeId, ids.IsChain e.scene.Leads → ids.length ≤ e.scene.size) ∧
      (Scalar.Steady R → st.scene.Numeric → Acyclic st.scene.PaintedWith →
        ∀ (c' : Conduct R ω), c'.Gentle → ∀ depth' limit, st.scene.size ≤ limit →
          (Stage.settle (c'.listener depth') { st.bare with scene.maxPasses := limit }).1 =
            .ok ())) := by
  have hcourse : Course (new maxPasses, []) st.history := by
    rw [← hrun]
    exact c.course depth commands (Stage.ofScene (new maxPasses) (w, []))
  have hbare := c.run_noted depth commands (Stage.ofScene (new maxPasses) (w, []))
  rw [hrun] at hbare
  have hreach : st.scene.Reachable :=
    ⟨ω, c, depth, maxPasses, w, commands, congrArg Stage.scene hbare⟩
  have hs := hreach.sound hfits
  have hthere : ∀ e ∈ st.world.2, e.scene.nodes.Fits ∧ e.scene.Sound := by
    intro e he
    obtain ⟨pre, post, hJ⟩ := List.append_of_mem he
    obtain ⟨hto, hfrom⟩ := hcourse.upTo rfl hJ
    have hfits' : e.scene.nodes.Fits := Nat.le_trans hfrom.slots hfits
    exact ⟨hfits', hto.sound hfits' (sound_new maxPasses)⟩
  have hiff := hcourse.acyclic_iff hfits
  refine ⟨fun e he id hcycle => (hthere e he).2.exists_clones hcycle, hiff, fun hopen => ?_⟩
  have hleads : Acyclic st.scene.Leads :=
    (hcourse.linkable hfits (sound_new maxPasses) (linkable_new maxPasses)).acyclic hopen
  refine ⟨hleads, fun e he ids hchain => ?_, fun hlaw hnumeric hpaints c' hc' depth' limit => ?_⟩
  · obtain ⟨hfits', hs'⟩ := hthere e he
    refine hs'.length_le_size hfits' (hiff.2 hopen e he) (fun a b hab => ?_) hchain
    exact hs'.node?_of_needs (.inl hab)
  · have hreach' : st.bare.scene.Reachable := hreach
    have hneeds : Acyclic st.bare.scene.Needs := hs.acyclic_needs hleads hpaints
    exact hreach'.settle_of_acyclic hlaw hc' depth' hfits hnumeric hneeds

end Conduct

/-! ## Clones that show each other -/

namespace Stage

/-- What commands lead to that no observer hears of. -/
def after {R : Type} [Scalar R] (commands : List (Command R Unit)) : Stage R Unit :=
  run (Conduct.silent.listener 0) commands (ofScene (new 16) ())

theorem reachable_after {R : Type} [Scalar R] (commands : List (Command R Unit)) :
    (after commands).scene.Reachable :=
  ⟨Unit, .silent, 0, 16, (), commands, rfl⟩

/-- The same with a journal. -/
def noted {R : Type} [Scalar R] (commands : List (Command R Unit)) :
    Stage R (Unit × Journal R Unit) :=
  runNoted (Conduct.silent.noted 0) commands (ofScene (new 16) ((), []))

/-- Two clones, and each is linked to the other one. -/
def mirrors : List (Command Int Unit) :=
  [.addChild ⟨0, 0⟩ (.clone none), .addChild ⟨0, 0⟩ (.clone none),
    .edit (.linkClone ⟨1, 0⟩ ⟨2, 0⟩), .edit (.linkClone ⟨2, 0⟩ ⟨1, 0⟩)]

theorem cycle_mirrors : TransGen (after mirrors).scene.Leads ⟨1, 0⟩ ⟨1, 0⟩ := by
  have hs := (reachable_after mirrors).sound (by decide +kernel)
  have hfirst : (after mirrors).scene.Leads ⟨1, 0⟩ ⟨2, 0⟩ :=
    hs.tree.leads_iff.2 (.inr (by decide +kernel))
  have hsecond : (after mirrors).scene.Leads ⟨2, 0⟩ ⟨1, 0⟩ :=
    hs.tree.leads_iff.2 (.inr (by decide +kernel))
  exact .head hfirst (.single hsecond)

/-- Where no node is painted with gradients, none is painted with itself. -/
theorem acyclic_paintedWith {R : Type} {s : Scene R} (hfits : s.nodes.Fits)
    (hall : (s.nodes.toList.all fun e => e.2.style.fill.server?.isNone &&
      e.2.style.stroke.server?.isNone) = true) : Acyclic s.PaintedWith := by
  intro id hcycle
  obtain ⟨b, ⟨r, hr, hheld⟩, -⟩ := Relation.TransGen.head'_iff.1 hcycle
  obtain ⟨n, hn, hheld⟩ := Option.bind_eq_some_iff.1 hheld
  have hnone := List.all_eq_true.1 hall (id, n) ((Arena.mem_toList hfits).2 hn)
  simp only [Bool.and_eq_true, Option.isNone_iff_eq_none] at hnone
  cases r with
  | cloneSource => exact hr rfl
  | fillServer => simp [Node.held, hnone.1] at hheld
  | strokeServer => simp [Node.held, hnone.2] at hheld

/-- A scene with one clone at most has no cycle. -/
theorem acyclic_leads {R : Type} {s : Scene R} (hs : s.Sound) (hfits : s.nodes.Fits) (c : NodeId)
    (hall : (s.nodes.toList.all fun e => e.2.kind.source?.isNone || decide (e.1 = c)) = true) :
    Acyclic s.Leads := by
  have hone : ∀ ⦃d u⦄, s.held? d .cloneSource = some u → d = c := by
    intro d u hsource
    obtain ⟨n, hn, hsource⟩ := Option.bind_eq_some_iff.1 hsource
    have hclone : n.kind.source? = some u := hsource
    simpa [hclone] using List.all_eq_true.1 hall (d, n) ((Arena.mem_toList hfits).2 hn)
  exact hs.acyclic_of_one_clone hone

/-- A path. -/
def alone : List (Command Int Unit) :=
  [.addChild ⟨0, 0⟩ (.path [])]

/-- A path and a clone of it. -/
def shown : List (Command Int Unit) :=
  alone ++ [.addChild ⟨0, 0⟩ (.clone (some ⟨1, 0⟩))]

end Stage

/-- Where the clones are linked to each other a command closes a cycle.  With the path and its clone
there is no cycle, and the scene settles. -/
theorem Conduct.acyclic_unless_linked_shown :
    (∃ command before after,
      .ended command before after none ∈ (Stage.noted Stage.mirrors).world.2 ∧
        command.Closes before) ∧
    Acyclic (Stage.noted Stage.shown).scene.Leads ∧
    (Stage.settle (Conduct.silent.listener 0)
      { (Stage.noted Stage.shown).bare with scene.maxPasses := 3 }).1 = .ok () := by
  constructor
  · obtain ⟨-, hiff, -⟩ := Conduct.silent.acyclic_unless_linked 0 16 () Stage.mirrors
      (show _ = Stage.noted Stage.mirrors from rfl) (by decide +kernel)
    by_contra hnone
    have hopen : ∀ command before after,
        .ended command before after none ∈ (Stage.noted Stage.mirrors).world.2 →
          ¬command.Closes before :=
      fun command before after hin hcloses => hnone ⟨command, before, after, hin, hcloses⟩
    have hlast : (Stage.noted Stage.mirrors).world.2.getLast?.map Entry.scene =
        some (Stage.after Stage.mirrors).scene := rfl
    obtain ⟨e, he, hscene⟩ := Option.map_eq_some_iff.1 hlast
    have hacyclic := hiff.2 hopen e (List.mem_of_getLast? he)
    rw [hscene] at hacyclic
    exact hacyclic _ Stage.cycle_mirrors
  · have hfits : (Stage.noted Stage.shown).scene.nodes.Fits := by decide +kernel
    obtain ⟨-, -, hrest⟩ := Conduct.silent.acyclic_unless_linked 0 16 () Stage.shown
      (show _ = Stage.noted Stage.shown from rfl) hfits
    -- The path leads nowhere when the clone is linked to it.
    have hpath : ((Stage.after Stage.alone).scene.node? ⟨1, 0⟩).map Node.leads =
        some ([], none) := rfl
    have hleads : ∀ b, ¬(Stage.after Stage.alone).scene.Leads ⟨1, 0⟩ b := by
      intro b hleads
      obtain ⟨l, hl, hb⟩ := leads_iff_leads.1 hleads
      rw [hpath] at hl
      cases hl
      simp at hb
    have hjournal : (Stage.noted Stage.shown).world.2 =
        [.began (.addChild ⟨0, 0⟩ (.path [])) (new 16),
          .ended (.addChild ⟨0, 0⟩ (.path [])) (new 16) (Stage.after Stage.alone).scene none,
          .began (.addChild ⟨0, 0⟩ (.clone (some ⟨1, 0⟩))) (Stage.after Stage.alone).scene,
          .ended (.addChild ⟨0, 0⟩ (.clone (some ⟨1, 0⟩))) (Stage.after Stage.alone).scene
            (Stage.after Stage.shown).scene none] := rfl
    obtain ⟨hacyclic, -, hsettle⟩ := hrest fun command before after hin hcloses => by
      simp only [hjournal, List.mem_cons, Entry.ended.injEq, reduceCtorEq, false_or,
        List.not_mem_nil, or_false] at hin
      rcases hin with ⟨rfl, rfl, -⟩ | ⟨rfl, rfl, -⟩
      · obtain ⟨id, source, -, hsource, -⟩ := hcloses
        cases hsource
      · obtain ⟨id, source, -, hsource, hway⟩ := hcloses
        cases hsource
        rcases Relation.ReflTransGen.cases_head hway with heq | ⟨b, hb, -⟩
        · exact absurd heq (by decide)
        · exact hleads b hb
    refine ⟨hacyclic, hsettle (Scalar.exact_integers.steady fun a => beq_self_eq_true a)
      (fun _ _ _ _ => ⟨by simp [Affine.beq_iff], beq_self_eq_true _⟩)
      (Stage.acyclic_paintedWith hfits (by decide +kernel)) Conduct.silent Conduct.gentle_silent 0 3
      (by decide +kernel)⟩

/-! ## Scenes that never settle -/

namespace Stage

/-- Two gradients, and each is painted with the other one. -/
def tints : List (Command Int Unit) :=
  [.addChild ⟨0, 0⟩ (.gradient []), .addChild ⟨0, 0⟩ (.gradient []),
    .edit (.setFillServer ⟨1, 0⟩ ⟨2, 0⟩), .edit (.setFillServer ⟨2, 0⟩ ⟨1, 0⟩)]

/-- A path and a clone of it in a group whose placement is no number. -/
def adrift : List (Command Extended Unit) :=
  [.addChild ⟨0, 0⟩ (.group false), .addChild ⟨1, 0⟩ (.path []),
    .addChild ⟨1, 0⟩ (.clone (some ⟨2, 0⟩)),
    .edit (.setTransform ⟨1, 0⟩
      ⟨.undefined, .undefined, .undefined, .undefined, .undefined, .undefined⟩)]

theorem drifts_undefined {n : Node Extended} (h : n.transform.a = .undefined)
    (h' : n.transform.b = .undefined) : n.Drifts := by
  intro w v
  rw [bne, Bool.not_eq_true', ← Bool.not_eq_true, Affine.beq_iff]
  rintro ⟨ha, -⟩
  have hmul : (w * n.transform).a = w.a * n.transform.a + w.c * n.transform.b := rfl
  rw [hmul, h, h'] at ha
  cases hwa : w.a <;> cases hwc : w.c <;> rw [hwa, hwc] at ha <;> cases ha

theorem stale_of_any {R : Type} {s : Scene R} {j : NodeId}
    (h : ((s.node? j).any fun n => !n.stale.isEmpty) = true) : s.Stale j := by
  cases hn : s.node? j with
  | none =>
    rw [hn] at h
    cases h
  | some n =>
    rw [hn, Option.any_some, Bool.not_eq_true', ← Bool.not_eq_true, Flags.isEmpty_iff] at h
    exact ⟨n, hn, h⟩

theorem stirs_of_any {R : Type} [Scalar R] {s : Scene R} {j k o : NodeId}
    (hway : ReflTransGen s.Carries j k)
    (h : ((s.node? k).any fun n => n.subscribers.any fun l => l.node = o) = true) :
    s.Stirs j o := by
  cases hn : s.node? k with
  | none =>
    rw [hn] at h
    cases h
  | some n =>
    rw [hn, Option.any_some, List.any_eq_true] at h
    obtain ⟨l, hl, hnode⟩ := h
    obtain rfl : l.node = o := by simpa using hnode
    exact ⟨k, n, l.role, hway, hn, hl⟩

/-- Whatever the number of passes, an update is given up if clones show each other, if gradients are
painted with each other, or if the placement of a group with a clone in it is no number; in the last
two scenes there is no cycle of children and clones. -/
theorem cycles_unsettled :
    ((after mirrors).scene.Reachable ∧ TransGen (after mirrors).scene.Leads ⟨1, 0⟩ ⟨1, 0⟩ ∧
      ∀ limit, (settle (Conduct.silent.listener 0)
        { after mirrors with scene.maxPasses := limit }).1 = .error (.noConvergence limit)) ∧
    ((after tints).scene.Reachable ∧ Acyclic (after tints).scene.Leads ∧
      ∀ limit, (settle (Conduct.silent.listener 0)
        { after tints with scene.maxPasses := limit }).1 = .error (.noConvergence limit)) ∧
    ((after adrift).scene.Reachable ∧ Acyclic (after adrift).scene.Needs ∧
      ∀ limit, (settle (Conduct.silent.listener 0)
        { after adrift with scene.maxPasses := limit }).1 = .error (.noConvergence limit)) := by
  refine ⟨⟨reachable_after mirrors, cycle_mirrors, ?_⟩, ⟨reachable_after tints, ?_, ?_⟩,
    reachable_after adrift, ?_, ?_⟩
  · have hfirst : (after mirrors).scene.Stirs ⟨1, 0⟩ ⟨2, 0⟩ :=
      stirs_of_any .refl (by decide +kernel)
    have hsecond : (after mirrors).scene.Stirs ⟨2, 0⟩ ⟨1, 0⟩ :=
      stirs_of_any .refl (by decide +kernel)
    exact (Conduct.records_silent.passive 0).settle_diverges (reachable_after mirrors)
      (by decide +kernel) (stale_of_any (by decide +kernel)) (.head hfirst (.single hsecond))
  · have hfits : (after tints).scene.nodes.Fits := by decide +kernel
    exact acyclic_leads ((reachable_after tints).sound hfits) hfits ⟨0, 0⟩ (by decide +kernel)
  · have hfirst : (after tints).scene.Stirs ⟨1, 0⟩ ⟨2, 0⟩ :=
      stirs_of_any .refl (by decide +kernel)
    have hsecond : (after tints).scene.Stirs ⟨2, 0⟩ ⟨1, 0⟩ :=
      stirs_of_any .refl (by decide +kernel)
    exact (Conduct.records_silent.passive 0).settle_diverges (reachable_after tints)
      (by decide +kernel) (stale_of_any (by decide +kernel)) (.head hfirst (.single hsecond))
  · have hfits : (after adrift).scene.nodes.Fits := by decide +kernel
    have hs := (reachable_after adrift).sound hfits
    exact hs.acyclic_needs (acyclic_leads hs hfits ⟨3, 0⟩ (by decide +kernel))
      (acyclic_paintedWith hfits (by decide +kernel))
  · -- The clone carries the group along, and that the path, which stirs up the clone.
    have hgroup : ((after adrift).scene.node? ⟨1, 0⟩).map Node.transform =
        some ⟨.undefined, .undefined, .undefined, .undefined, .undefined, .undefined⟩ := rfl
    obtain ⟨n, hn, htransform⟩ := Option.map_eq_some_iff.1 hgroup
    have hdrifts : n.Drifts := drifts_undefined (by rw [htransform]) (by rw [htransform])
    have hup : (after adrift).scene.Carries ⟨3, 0⟩ ⟨1, 0⟩ := .parent (by decide +kernel)
    have hdown : (after adrift).scene.Carries ⟨1, 0⟩ ⟨2, 0⟩ :=
      .child hn (by decide +kernel) hdrifts
    have hback : (after adrift).scene.Stirs ⟨3, 0⟩ ⟨3, 0⟩ :=
      stirs_of_any (.head hup (.single hdown)) (by decide +kernel)
    exact (Conduct.records_silent.passive 0).settle_diverges (reachable_after adrift)
      (by decide +kernel) (stale_of_any (by decide +kernel)) (.single hback)

end Stage

end Freehand
