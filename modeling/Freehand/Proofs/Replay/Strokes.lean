import Freehand.Proofs.Replay.Gestures
import Freehand.Proofs.Scalar.Fractions

/-!
# Replays append strokes

A replay leaves all nodes of a document as they were set, and appends the paths of strokes to its
current layer (`Replay.run_appends`).  This holds as long as the observers leave alone what was set;
one that does not can change any node while an update runs (`Replay.run_not_kept`).

* One change is recorded for every gesture that is released after a sample (`Replay.strokes`).  At
  most one stroke is written for it: an empty one is not, nor is one that the layer refuses.
* An event makes a document gain strokes (`Document.Gains`), and the update after it keeps what was
  set.  Gains add up, so a whole replay is one gain.
* The report looks for the first path of the layer that is new.  As the old children of the layer
  keep their kinds, and all new ones are paths, that is the first node appended.
-/

namespace Freehand

open Scene Replay

variable {R ω : Type}

/-! ## What a document gains -/

/-- The document has one change more for each of `n` gestures, and at most that many strokes in a
layer. -/
structure Document.Gains (mode : StrokeMode) (layer : NodeId) (n : Nat) (d d' : Document R ω) :
    Prop where
  current : d'.current = d.current
  history : d'.history = d.history ++ List.replicate n mode.label
  draws : ∃ new, new.length ≤ n ∧ Draws mode layer new d.scene d'.scene

namespace Document.Gains

variable {mode : StrokeMode} {layer : NodeId} {n n' : Nat} {d d' d'' : Document R ω}

/-- An update gains nothing. -/
theorem of_kept (hcurrent : d'.current = d.current) (hhistory : d'.history = d.history)
    (h : Kept d.scene d'.scene) : Gains mode layer 0 d d' where
  current := hcurrent
  history := hhistory.trans (List.append_nil d.history).symm
  draws := ⟨[], Nat.le_refl 0, .of_kept h⟩

theorem of_eq (h : d' = d) : Gains mode layer 0 d d' := by
  subst h
  exact of_kept rfl rfl (cumulative_kept.refl _)

theorem trans (h : Gains mode layer n d d') (h' : Gains mode layer n' d' d'') :
    Gains mode layer (n + n') d d'' where
  current := h'.current.trans h.current
  history := by
    rw [h'.history, h.history, List.append_assoc, List.replicate_append_replicate]
  draws := by
    obtain ⟨new, hlength, hdraws⟩ := h.draws
    obtain ⟨new', hlength', hdraws'⟩ := h'.draws
    refine ⟨new ++ new', ?_, hdraws.trans hdraws'⟩
    rw [List.length_append]
    exact Nat.add_le_add hlength hlength'

/-- A stroke is written, or none, and the gesture is committed. -/
theorem of_inked [Scalar R] {handle : LayerHandle} (h : d.Inked mode handle d') :
    Gains mode handle.id 1 d (d'.commit mode.label) := by
  cases h with
  | blank => exact ⟨rfl, rfl, [], Nat.zero_le 1, .of_kept (cumulative_kept.refl d.scene)⟩
  | written h =>
    obtain ⟨s, hs⟩ := d.exists_write handle mode _
    have hdraws := d.draws_write handle h
    rw [hs] at hdraws ⊢
    exact ⟨rfl, rfl, hdraws⟩

end Document.Gains

namespace Replay

/-! ## Reports -/

variable {mode : StrokeMode} {layer : NodeId} {before after : Document R ω} {new : List NodeId}

/-- The paths of a layer stay, and what was appended are paths. -/
theorem pathsIn_eq (htree : before.scene.Tree)
    (h : Appends (Kind.IsStroke mode) layer new before.scene after.scene) :
    after.pathsIn layer = before.pathsIn layer ++ new := by
  cases hlayer : before.scene.node? layer with
  | none =>
    obtain ⟨hnew, hnone⟩ := h.of_no_host hlayer
    rw [Document.pathsIn, Document.pathsIn, hnone, hlayer, hnew]
    rfl
  | some n =>
    obtain ⟨n', hn', -, hchildren⟩ := h.kept hlayer
    rw [if_pos rfl] at hchildren
    have hold : ∀ c ∈ n.children, ((after.scene.node? c).any fun n => n.kind.isPath) =
        (before.scene.node? c).any fun n => n.kind.isPath := by
      intro c hc
      obtain ⟨m, hm, -⟩ := htree.child hlayer hc
      obtain ⟨m', hm', hgiven, -⟩ := h.kept hm
      rw [hm, hm', Option.any_some, Option.any_some, show m'.kind = m.kind from
        congrArg Prod.fst hgiven]
    have hpaths : ∀ c ∈ new, ((after.scene.node? c).any fun n => n.kind.isPath) = true := by
      intro c hc
      obtain ⟨-, m', hm'⟩ := (h.mem_iff c).1 hc
      obtain ⟨-, elements, hkind, -⟩ := h.holds hc hm'
      rw [hm', Option.any_some, hkind]
      rfl
    rw [Document.pathsIn, Document.pathsIn, hn', hlayer]
    dsimp only
    rw [hchildren, List.filter_append, List.filter_congr hold, List.filter_eq_self.2 hpaths]

theorem exists_of_mem_pathsIn {c : NodeId} (htree : before.scene.Tree)
    (hc : c ∈ before.pathsIn layer) : ∃ m, before.scene.node? c = some m := by
  rw [Document.pathsIn] at hc
  split at hc
  next => cases hc
  next n hlayer =>
    obtain ⟨m, hm, -⟩ := htree.child hlayer (List.mem_of_mem_filter hc)
    exact ⟨m, hm⟩

/-- The first path of a layer that is new is the first node appended. -/
theorem find?_pathsIn (htree : before.scene.Tree)
    (h : Appends (Kind.IsStroke mode) layer new before.scene after.scene) :
    ((after.pathsIn layer).find? fun id => !(before.pathsIn layer).contains id) = new.head? := by
  have hnew : ∀ c ∈ new, c ∉ before.pathsIn layer := by
    intro c hc hmem
    obtain ⟨m, hm⟩ := exists_of_mem_pathsIn htree hmem
    rw [((h.mem_iff c).1 hc).1] at hm
    cases hm
  have hold : ((before.pathsIn layer).find? fun id => !(before.pathsIn layer).contains id) =
      none := by
    refine List.find?_eq_none.2 fun c hc => ?_
    rw [List.contains_iff_mem.2 hc]
    exact Bool.false_ne_true
  rw [pathsIn_eq htree h, List.find?_append, hold, Option.none_or]
  cases new with
  | nil => rfl
  | cons c new =>
    refine List.find?_cons_of_pos ?_
    rw [List.contains_eq_mem, decide_eq_false (hnew c List.mem_cons_self)]
    rfl

/-- The elements reported are those of the path reported. -/
theorem elements_report (before after : Document R ω) (layer : NodeId) (mode : StrokeMode)
    (events : Nat) (damage : Option (Rect R)) :
    let rep := report before after layer mode events damage
    rep.elements = ((rep.node.bind after.scene.node?).bind fun n => n.kind.elements?).getD [] :=
  rfl

/-! ## Events and updates -/

/-- The current layer, if the document still has it, is the one with this identifier. -/
theorem eq_of_currentLayer? {d : Document R ω} {handle : LayerHandle}
    (hcurrent : d.current = some layer) (h : d.currentLayer? = some handle) :
    handle = layer.toLayer := by
  rw [Document.currentLayer?, hcurrent, Option.filter_some] at h
  split at h
  · exact (Option.some.inj h).symm
  · cases h

variable [Scalar R] {l : Listener R ω} {sampled : Bool} {r : Run R ω}

/-- The update after an event gains nothing. -/
theorem gains_refresh (hl : l.Reserved) (r : Run R ω) :
    r.desk.document.Gains mode layer 0 (refresh l r).desk.document := by
  have hkept := hl.kept_runPending r.desk.document.stage
  rw [refresh]
  dsimp only
  split
  next hrun =>
    rw [hrun] at hkept
    exact .of_kept rfl rfl (cumulative_kept.trans hkept (cumulative_kept.of_nodes_eq rfl rfl))
  next hrun =>
    rw [hrun] at hkept
    exact .of_kept rfl rfl hkept

/-- An update leaves the tool and the canvas alone. -/
theorem tool_refresh (l : Listener R ω) (r : Run R ω) : (refresh l r).tool = r.tool := by
  rw [refresh]
  dsimp only
  split <;> rfl

theorem canvas_refresh (l : Listener R ω) (r : Run R ω) :
    (refresh l r).desk.canvas = r.desk.canvas := by
  rw [refresh]
  dsimp only
  split <;> rfl

/-- The number of gestures that an event releases after a sample, which is one or none. -/
def ends (sampled : Bool) (e : Event R) (t' : Tool R) : Nat :=
  (e.isRelease && sampled && t'.phase = .idle).toNat

/-- The number of gestures that are released after at least one sample, while events are replayed.
The one that is open may have taken a sample already. -/
def strokes (l : Listener R ω) : (sampled : Bool) → List (Event R) → Run R ω → Nat
  | _, [], _ => 0
  | sampled, e :: events, r =>
    let r' := step l r e
    ends sampled e r'.tool +
      strokes l (sampledAfter sampled r.desk r'.tool r'.desk) events r'

/-- An event and the update after it gain at most one stroke. -/
theorem gains_step (hl : l.Reserved) (h : r.tool.Poised mode layer.toLayer sampled)
    (hcurrent : r.desk.document.current = some layer) (e : Event R) :
    (step l r e).tool.Poised mode layer.toLayer
        (sampledAfter sampled r.desk (step l r e).tool (step l r e).desk) ∧
      r.desk.document.Gains mode layer (ends sampled e (step l r e).tool)
        (step l r e).desk.document := by
  have hturn := turn_deliver h l (fun _ => eq_of_currentLayer? hcurrent) e
  have hrefresh : (deliver l r e).desk.document.Gains mode layer 0
      (step l r e).desk.document := gains_refresh hl _
  have hlayer : layer.toLayer.id = layer := NodeId.ofBits_toBits layer
  rw [ends, sampledAfter, show (step l r e).tool = (deliver l r e).tool from tool_refresh l _,
    show (step l r e).desk.canvas = (deliver l r e).desk.canvas from canvas_refresh l _]
  cases hturn with
  | steady hsteady hends =>
    rw [hends]
    exact ⟨hsteady.poised, (Document.Gains.of_eq hsteady.document).trans hrefresh⟩
  | committed hinked hdocument hpoised hends hsampled hphase =>
    have hgains := Document.Gains.of_inked hinked
    rw [hlayer, ← hdocument] at hgains
    rw [hends, hsampled, hphase]
    exact ⟨hpoised, hgains.trans hrefresh⟩

/-- A replay gains at most one stroke for each gesture that is released after a sample. -/
theorem gains_foldl (hl : l.Reserved) (events : List (Event R)) :
    ∀ {sampled : Bool} {r : Run R ω}, r.tool.Poised mode layer.toLayer sampled →
      r.desk.document.current = some layer →
      r.desk.document.Gains mode layer (strokes l sampled events r)
        (events.foldl (step l) r).desk.document := by
  induction events with
  | nil => exact fun _ _ => .of_eq rfl
  | cons e events ih =>
    intro sampled r hpoised hcurrent
    obtain ⟨hpoised', hgains⟩ := gains_step hl hpoised hcurrent e
    exact hgains.trans (ih hpoised' (hgains.current.trans hcurrent))

/-! ## Replays -/

/-- A new tool at a desk with a document. -/
def opening (document : Document R ω) (settings : Settings R) : Run R ω :=
  ⟨.ofSettings settings, .withViewport document viewport, none⟩

theorem run_eq (l : Listener R ω) (document : Document R ω) (settings : Settings R)
    (events : List (Event R)) :
    run l document settings events =
      match document.current with
      | none => .error .noLayer
      | some layer =>
        let r := events.foldl (step l) (opening document settings)
        .ok (report document r.desk.document layer settings.mode events.length r.damage,
          r.desk.document) :=
  rfl

theorem poised_opening (document : Document R ω) (settings : Settings R) (handle : LayerHandle) :
    (opening document settings).tool.Poised settings.mode handle false where
  settings := rfl
  capture := Capture.mode_ofMode settings.mode
  shaped := Capture.shaped_ofMode settings.mode
  node := rfl
  dragging := rfl
  phase := .inl ⟨rfl, rfl⟩

/-- A replay is refused exactly if the document has no current layer.  Otherwise all nodes stay as
they were set, and strokes are appended to the current layer, at most one for each gesture that is
released after a sample.  One change is recorded for each of these, and the report tells of the
first stroke. -/
theorem run_appends {l : Listener R ω} (hl : l.Reserved) {document : Document R ω}
    (hreachable : document.Reachable) (settings : Settings R) (events : List (Event R)) :
    (run l document settings events = .error .noLayer ↔ document.current = none) ∧
      ∀ {report : Report R} {after : Document R ω},
        run l document settings events = .ok (report, after) → after.scene.nodes.Fits →
        ∃ layer new, document.current = some layer ∧
          Appends (Kind.IsStroke settings.mode) layer new document.scene after.scene ∧
          new.length ≤ strokes l false events (opening document settings) ∧
          after.history = document.history ++
            List.replicate (strokes l false events (opening document settings))
              settings.mode.label ∧
          report.node = new.head? ∧
          (∀ id, report.node = some id →
            ∃ n, after.scene.node? id = some n ∧ n.kind = .path report.elements) ∧
          (report.node = none → report.elements = []) := by
  refine ⟨?_, fun {report after} hrun hfits => ?_⟩
  · rw [run_eq]
    cases document.current with
    | none => exact iff_of_true rfl rfl
    | some layer => exact iff_of_false nofun nofun
  · cases hcurrent : document.current with
    | none =>
      rw [run_eq, hcurrent] at hrun
      cases hrun
    | some layer =>
      rw [run_eq, hcurrent] at hrun
      cases hrun
      have hgains := gains_foldl (r := opening document settings) hl events
        (poised_opening document settings layer.toLayer) hcurrent
      obtain ⟨new, hlength, hdraws⟩ := hgains.draws
      have hsound := hreachable.sound (Nat.le_trans hdraws.slots hfits)
      have happends := hdraws.appends hfits hsound.valid
      have hnode := find?_pathsIn hsound.tree happends
      refine ⟨layer, new, rfl, happends, hlength, hgains.history, hnode, fun id hid => ?_,
        fun hnone => ?_⟩
      · have hnew : id ∈ new := List.mem_of_mem_head? (hnode.symm.trans hid)
        obtain ⟨-, n, hn⟩ := (happends.mem_iff id).1 hnew
        obtain ⟨-, elements, hkind, -⟩ := happends.holds hnew hn
        refine ⟨n, hn, hkind.trans ?_⟩
        rw [elements_report, hid, Option.bind_some, hn, Option.bind_some, hkind]
        rfl
      · rw [elements_report, hnone]
        rfl

end Replay

/-! ## Replays over the fractions -/

theorem Except.exists_of_any {ε α : Type} {x : Except ε α} {p : α → Bool}
    (h : x.toOption.any p = true) : ∃ a, x = .ok a ∧ p a = true := by
  cases x with
  | error e => cases h
  | ok a => exact ⟨a, rfl, h⟩

/-- Settings for outlines of a pen that follows the pointer. -/
def Settings.nimble : Settings Rat :=
  { (withMode .calligraphic : Settings Rat) with mass := 0, drag := 0 }

/-- A stroke with two samples, a click without any, and a stroke that is abandoned. -/
def Event.scribble : List (Event Rat) :=
  [.press ⟨0, 0⟩ 0 1, .move ⟨1024, 0⟩ 10 ⟨true, false, false⟩,
    .move ⟨2048, 1024⟩ 20 ⟨true, false, false⟩, .release ⟨2048, 1024⟩ 30 1,
    .press ⟨0, 0⟩ 40 1, .release ⟨0, 0⟩ 50 1,
    .press ⟨0, 0⟩ 60 1, .move ⟨1024, 0⟩ 70 ⟨true, false, false⟩, .key .escape]

/-- Observers that let the scene settle whenever they are told of a node. -/
def Conduct.settling : Conduct Rat Unit :=
  { Conduct.silent with modified := fun _ _ _ _ => [.settle] }

/-- Observers that hide the layer of a new document whenever a pass is complete. -/
def Conduct.hiding : Conduct Rat Unit :=
  { Conduct.silent with completed := fun _ _ => [.edit (.setHidden ⟨1, 0⟩ true)] }

/-- A new document with one observer. -/
def Document.observed (c : Conduct Rat Unit) : Document Rat Unit :=
  [.command .addObserver].foldl (perform (c.listener 1)) (.new 16 ())

theorem Document.reachable_observed (c : Conduct Rat Unit) : (observed c).Reachable :=
  ⟨c, 1, 16, (), [.command .addObserver], rfl⟩

theorem Conduct.reserved_settling : Conduct.settling.Reserved where
  modified _ _ _ _ command hcommand := by
    rw [List.mem_singleton.1 hcommand]
    rfl
  completed _ _ := nofun

namespace Replay

/-- The replay of the scribble appends one outline. -/
theorem run_appends_scribble :
    ∃ (report : Report Rat) (after : Document Rat Unit) (new : List NodeId),
      run (Conduct.settling.listener 1) (.observed .settling) .nimble Event.scribble =
        .ok (report, after) ∧
      Appends (Kind.IsStroke .calligraphic) ⟨1, 0⟩ new (Document.observed .settling).scene
        after.scene ∧
      new.length ≤ 1 ∧ new.head? = some ⟨2, 0⟩ ∧ report.elements ≠ [] ∧
      after.history = ["Draw calligraphic stroke"] := by
  have hcount : strokes (Conduct.settling.listener 1) false Event.scribble
      (opening (.observed .settling) .nimble) = 1 := by
    decide +kernel
  have houtcome : (run (Conduct.settling.listener 1) (.observed .settling) .nimble
      Event.scribble).toOption.any (fun x => x.1.node = some ⟨2, 0⟩ && !x.1.elements.isEmpty &&
        x.2.scene.nodes.slots.size ≤ UInt32.size) = true := by
    decide +kernel
  obtain ⟨⟨report, after⟩, hrun, houtcome⟩ := Except.exists_of_any houtcome
  simp only [Bool.and_eq_true, decide_eq_true_eq, Bool.not_eq_true',
    List.isEmpty_eq_false_iff] at houtcome
  obtain ⟨⟨hnode, helements⟩, hfits⟩ := houtcome
  obtain ⟨layer, new, hcurrent, happends, hlength, hhistory, hhead, -⟩ :=
    (run_appends (Conduct.reserved_settling.listener 1)
      (Document.reachable_observed .settling) .nimble Event.scribble).2 hrun hfits
  have hlayer : (Document.observed .settling).current = some ⟨1, 0⟩ := by
    decide +kernel
  obtain rfl : layer = ⟨1, 0⟩ := Option.some.inj (hcurrent.symm.trans hlayer)
  rw [hcount] at hlength hhistory
  refine ⟨report, after, new, hrun, happends, hlength, hhead.symm.trans hnode, helements, ?_⟩
  rw [hhistory]
  rfl

/-- An observer hides a layer while a replay runs that draws nothing.  The document is one that
operations lead to, and its layer was shown. -/
theorem run_not_kept :
    (Document.observed .hiding).Reachable ∧
      ¬∀ {report : Report Rat} {after : Document Rat Unit},
        run (Conduct.hiding.listener 1) (.observed .hiding) .nimble [.key .up] =
          .ok (report, after) →
        ∀ id n, (Document.observed .hiding).scene.node? id = some n →
          ∃ n', after.scene.node? id = some n' ∧ n'.hidden = n.hidden := by
  refine ⟨Document.reachable_observed .hiding, fun hkept => ?_⟩
  have hbefore : ((Document.observed .hiding).scene.node? ⟨1, 0⟩).any (fun n => !n.hidden) =
      true := by
    decide +kernel
  have hafter : (run (Conduct.hiding.listener 1) (.observed .hiding) .nimble
      [.key .up]).toOption.any (fun x => (x.2.scene.node? ⟨1, 0⟩).any Node.hidden) = true := by
    decide +kernel
  obtain ⟨⟨report, after⟩, hrun, hhidden⟩ := Except.exists_of_any hafter
  obtain ⟨n, hn, hshown⟩ := (Option.any_eq_true _ _).1 hbefore
  obtain ⟨n', hn', hsame⟩ := hkept hrun ⟨1, 0⟩ n hn
  rw [hn', Option.any_some, hsame] at hhidden
  rw [hhidden] at hshown
  cases hshown

end Replay

end Freehand
