import Freehand.Proofs.Tool.Protocol
import Mathlib.Data.List.Forall2

/-!
# Tools side by side

Two tools are twins if they differ in the stroke mode of their settings at most.  Each has a host of
its own, and the hosts match if they look and answer alike (`Host.Matches`).  A tool uses the mode
of its settings for two things during a gesture: for the tolerance of the fits, which depends on the
size of a pixel as well, and for the name of the committed stroke.  So hosts of twins with different
modes may show pixels of different sizes, and each host has to know a stroke by its own name.

Twins stay twins whatever a gesture does (`Tool.Twins.step`), and only begins, which are no part of
a gesture, tell their modes apart.
-/

namespace Freehand

variable {R σ τ : Type} {m n : StrokeMode} {ρ : σ → τ → Prop}

/-! ## Hosts that match -/

/-- The name of a committed stroke of a mode. -/
def StrokeMode.label : StrokeMode → String
  | line => "Draw freehand line"
  | calligraphic => "Draw calligraphic stroke"

/-- In related states the hosts look alike and answer every call alike, for tools with the modes
`m` and `n`. -/
structure Host.Matches [Scalar R] (h : Host R σ) (k : Host R τ) (m n : StrokeMode)
    (ρ : σ → τ → Prop) : Prop where
  viewport : ∀ {v w}, ρ v w → (h.view v).viewport = (k.view w).viewport
  toDocument : ∀ {v w}, ρ v w → (h.view v).toDocument = (k.view w).toDocument
  pointer : ∀ {v w}, ρ v w → (h.view v).pointer = (k.view w).pointer
  tolerance : ∀ {v w}, ρ v w →
    (h.view v).pixelSize * m.tolerance = (k.view w).pixelSize * n.tolerance
  answer : ∀ {v w}, ρ v w → ∀ c, (∀ label, c ≠ .commit label) →
    (h.answer c v).1 = (k.answer c w).1 ∧ ρ (h.answer c v).2 (k.answer c w).2
  commit : ∀ {v w}, ρ v w → ∃ answer : Except DocumentError Unit,
    (h.answer (.commit m.label) v).1 = answer ∧ (k.answer (.commit n.label) w).1 = answer ∧
    ρ (h.answer (.commit m.label) v).2 (k.answer (.commit n.label) w).2

/-- The calls are the same with the same answer, or commits of strokes in the modes `m` and `n`. -/
inductive Exchange.Alike (m n : StrokeMode) : Exchange R → Exchange R → Prop where
  | same (x : Exchange R) : Alike m n x x
  | commit (answer : Except DocumentError Unit) :
      Alike m n ⟨.commit m.label, answer⟩ ⟨.commit n.label, answer⟩

/-- The states are related, and so are the calls so far. -/
def Traced (m n : StrokeMode) (ρ : σ → τ → Prop) (v : σ × List (Exchange R))
    (w : τ × List (Exchange R)) : Prop :=
  ρ v.1 w.1 ∧ List.Forall₂ (Exchange.Alike m n) v.2 w.2

namespace Host.Matches

variable [Scalar R] {h : Host R σ} {k : Host R τ} {v : σ} {w : τ}

theorem answers (hm : h.Matches k m n ρ) (hρ : ρ v w) {c : Call R}
    (hc : ∀ label, c ≠ .commit label) : ∃ answer v' w', h.answer c v = (answer, v') ∧
      k.answer c w = (answer, w') ∧ ρ v' w' := by
  obtain ⟨hanswer, hρ'⟩ := hm.answer hρ c hc
  exact ⟨_, _, _, rfl, Prod.ext hanswer.symm rfl, hρ'⟩

theorem tell (hm : h.Matches k m n ρ) (hρ : ρ v w) {c : Call R}
    (hc : ∀ label, c ≠ .commit label) : ρ (h.tell c v) (k.tell c w) :=
  (hm.answer hρ c hc).2

/-- Hosts that match make calls that are alike. -/
theorem traced (hm : h.Matches k m n ρ) : h.traced.Matches k.traced m n (Traced m n ρ) where
  viewport hρ := hm.viewport hρ.1
  toDocument hρ := hm.toDocument hρ.1
  pointer hρ := hm.pointer hρ.1
  tolerance hρ := hm.tolerance hρ.1
  answer {v w} hρ c hc := by
    obtain ⟨hanswer, hρ'⟩ := hm.answer hρ.1 c hc
    refine ⟨hanswer, hρ', List.rel_append hρ.2 (.cons ?_ .nil)⟩
    show Exchange.Alike m n ⟨c, (h.answer c v.1).1⟩ ⟨c, (k.answer c w.1).1⟩
    rw [hanswer]
    exact .same _
  commit {v w} hρ := by
    obtain ⟨answer, hleft, hright, hρ'⟩ := hm.commit hρ.1
    refine ⟨answer, hleft, hright, hρ', List.rel_append hρ.2 (.cons ?_ .nil)⟩
    show Exchange.Alike m n ⟨_, (h.answer _ v.1).1⟩ ⟨_, (k.answer _ w.1).1⟩
    rw [hleft, hright]
    exact .commit answer

end Host.Matches

/-! ## Twins -/

namespace Tool

/-- The tool with another stroke mode in its settings.  The capture in use stays. -/
def inMode (t : Tool R) (n : StrokeMode) : Tool R :=
  { t with settings := { t.settings with mode := n } }

/-- The tools differ in the modes `m` and `n` of their settings only, and their hosts are in related
states. -/
structure Twins (m n : StrokeMode) (ρ : σ → τ → Prop) (p : Tool R × σ) (q : Tool R × τ) : Prop where
  mode : p.1.settings.mode = m
  tool : q.1 = p.1.inMode n
  world : ρ p.2 q.2

/-- The tools consumed the same, and are twins afterwards. -/
structure TwinReactions (m n : StrokeMode) (ρ : σ → τ → Prop) (r : Reaction R σ)
    (r' : Reaction R τ) : Prop where
  consumed : r.consumed = r'.consumed
  twins : Twins m n ρ (r.tool, r.world) (r'.tool, r'.world)

/-! ### What the operations come to -/

section

variable [Scalar R]

/-- The tool after a sample that moved the pen. -/
def drawn (t : Tool R) (pen : Pen R) (tolerance : R) : Tool R :=
  let capture := (t.capture.addSample pen t.settings).fit tolerance
  { t with
    pen
    capture
    dragging := true
    phase := .capturing
    previewRegion := capture.preview.bounds }

theorem sample_eq (h : Host R σ) (t : Tool R) (v : σ) (point : Point R) :
    sample h t v point =
      let pulled := t.pen.pull point (h.view v).viewport t.settings
      let next := t.drawn pulled.2 (t.tolerance (h.view v))
      if !pulled.1 || pulled.2.position == pulled.2.previous then
        ⟨false, { t with pen := pulled.2 }, v⟩
      else
        ⟨true, next, h.tell (.requestRedraw (Rect.join t.previewRegion next.previewRegion))
          (h.tell (.showPreview next.capture.preview next.capture.settled) v)⟩ :=
  rfl

omit [Scalar R] in
theorem label_eq (t : Tool R) : t.label = t.settings.mode.label := by
  rw [label]
  cases t.settings.mode <;> rfl

/-- The tool that writes a finished stroke, with nothing captured any more. -/
def finishing (t : Tool R) : Tool R :=
  { t with
    dragging := false
    phase := .committing
    capture := t.capture.reset
    previewRegion := none }

/-- The tool after a stroke. -/
def finished (t : Tool R) : Tool R :=
  { t with node := none, layer := none, phase := .idle }

theorem commit_eq (h : Host R σ) (t : Tool R) (v : σ) :
    commit h t v =
      let outline := t.capture.finish (t.tolerance (h.view v))
      let written := writeOutline h t.finishing v outline
      (written.1.finished, h.tell (.requestRedraw (Rect.join t.previewRegion outline.bounds))
        (h.tell (.commit written.1.settings.mode.label) written.2)) := by
  simp only [← label_eq]
  rfl

/-- The tool after it abandoned a gesture. -/
def abandoned (t : Tool R) : Tool R :=
  { t with
    capture := t.capture.reset
    dragging := false
    layer := none
    lastSample := none
    phase := .idle }

omit [Scalar R] in
theorem cancel_eq (h : Host R σ) (t : Tool R) (v : σ) :
    cancel h t v =
      let untimed := withoutTimer h t v
      let unwritten := withoutNode h untimed.1 untimed.2
      let unseen := withoutPreview h unwritten.1 unwritten.2
      (unseen.1.abandoned, unseen.2) :=
  rfl

end

variable [Scalar R] {h : Host R σ} {k : Host R τ} {t u : Tool R} {v : σ} {w : τ}

section

omit [Scalar R]

theorem inMode_self (t : Tool R) : t.inMode t.settings.mode = t :=
  rfl

@[simp]
theorem inMode_phase (t : Tool R) (n : StrokeMode) : (t.inMode n).phase = t.phase :=
  rfl

@[simp]
theorem inMode_layer (t : Tool R) (n : StrokeMode) : (t.inMode n).layer = t.layer :=
  rfl

@[simp]
theorem inMode_node (t : Tool R) (n : StrokeMode) : (t.inMode n).node = t.node :=
  rfl

@[simp]
theorem inMode_timer (t : Tool R) (n : StrokeMode) : (t.inMode n).timer = t.timer :=
  rfl

@[simp]
theorem inMode_dragging (t : Tool R) (n : StrokeMode) : (t.inMode n).dragging = t.dragging :=
  rfl

@[simp]
theorem inMode_capture (t : Tool R) (n : StrokeMode) : (t.inMode n).capture = t.capture :=
  rfl

@[simp]
theorem inMode_isEarly (t : Tool R) (n : StrokeMode) (time : UInt64) :
    (t.inMode n).isEarly time = t.isEarly time :=
  rfl

end

theorem tolerance_inMode (hm : h.Matches k m n ρ) (hρ : ρ v w) (hmode : t.settings.mode = m) :
    (t.inMode n).tolerance (k.view w) = t.tolerance (h.view v) := by
  simp only [tolerance, inMode, hmode, hm.tolerance hρ]

namespace Twins

/-! ### Sampling -/

theorem sample (hm : h.Matches k m n ρ) (htwins : Twins m n ρ (t, v) (u, w)) (point : Point R) :
    TwinReactions m n ρ (sample h t v point) (sample k u w point) := by
  obtain ⟨hmode, rfl, hρ⟩ := htwins
  have hpull : (t.inMode n).pen.pull point (k.view w).viewport (t.inMode n).settings =
      t.pen.pull point (h.view v).viewport t.settings := by
    rw [hm.viewport hρ]
    rfl
  simp only [sample_eq, hpull, tolerance_inMode hm hρ hmode]
  split
  · exact ⟨rfl, hmode, rfl, hρ⟩
  · exact ⟨rfl, hmode, rfl, hm.tell (hm.tell hρ (by simp)) (by simp)⟩

/-- Moves are consumed alike, as the mode does not tell whether a sample is early. -/
theorem move (hm : h.Matches k m n ρ) (htwins : Twins m n ρ (t, v) (u, w)) (point : Point R)
    (time : UInt64) (buttons : Buttons) :
    TwinReactions m n ρ (move h t v point time buttons) (move k u w point time buttons) := by
  have hsample := htwins.sample hm point
  obtain ⟨hmode, rfl, hρ⟩ := id htwins
  simp only [Tool.move, inMode_phase, inMode_timer, inMode_isEarly]
  split
  · exact ⟨rfl, htwins⟩
  · split
    · exact ⟨rfl, htwins⟩
    · obtain ⟨hconsumed, hmode', htool, hρ'⟩ := hsample
      dsimp only at htool ⊢
      rw [← hconsumed, htool]
      refine ⟨rfl, ?_, ?_, hρ'⟩
      · split <;> exact hmode'
      · split <;> rfl

/-- Ticks are consumed alike. -/
theorem tick (hm : h.Matches k m n ρ) (htwins : Twins m n ρ (t, v) (u, w)) :
    TwinReactions m n ρ (tick h t v) (tick k u w) := by
  have hpointer := hm.pointer htwins.world
  have hsample := htwins.sample hm
  obtain ⟨hmode, rfl, hρ⟩ := id htwins
  rw [Tool.tick, Tool.tick, hpointer, inMode_phase, inMode_timer]
  by_cases hidle : t.phase ≠ .capturing ∨ t.timer.isNone
  · rw [if_pos hidle, if_pos hidle]
    exact ⟨rfl, htwins⟩
  · rw [if_neg hidle, if_neg hidle]
    cases (k.view w).pointer with
    | none => exact ⟨rfl, htwins⟩
    | some point => exact hsample point

/-! ### Ending -/

theorem withoutTimer (hm : h.Matches k m n ρ) (htwins : Twins m n ρ (t, v) (u, w)) :
    Twins m n ρ (withoutTimer h t v) (withoutTimer k u w) := by
  obtain ⟨hmode, rfl, hρ⟩ := id htwins
  simp only [Tool.withoutTimer, inMode_timer]
  cases t.timer with
  | none => exact htwins
  | some timer => exact ⟨hmode, rfl, hm.tell hρ (by simp)⟩

theorem withoutNode (hm : h.Matches k m n ρ) (htwins : Twins m n ρ (t, v) (u, w)) :
    Twins m n ρ (withoutNode h t v) (withoutNode k u w) := by
  obtain ⟨hmode, rfl, hρ⟩ := id htwins
  simp only [Tool.withoutNode, inMode_node]
  cases t.node with
  | none => exact htwins
  | some node => exact ⟨hmode, rfl, hm.tell hρ (by simp)⟩

/-- Both strokes go into the same layer. -/
theorem targetLayer (hm : h.Matches k m n ρ) (htwins : Twins m n ρ (t, v) (u, w)) :
    ∃ layer v' w', targetLayer h t v = (layer, v') ∧ targetLayer k u w = (layer, w') ∧ ρ v' w' := by
  obtain ⟨hmode, rfl, hρ⟩ := id htwins
  simp only [Tool.targetLayer, inMode_layer]
  cases t.layer with
  | some layer => exact ⟨_, _, _, rfl, rfl, hρ⟩
  | none => exact hm.answers hρ (c := .currentLayer) (by simp)

/-- Both tools create a node of the mode that their capture was started in. -/
theorem withNode (hm : h.Matches k m n ρ) (htwins : Twins m n ρ (t, v) (u, w)) :
    Twins m n ρ (withNode h t v) (withNode k u w) := by
  obtain ⟨layer, v₁, w₁, hlayer, hlayer', hρ₁⟩ := htwins.targetLayer hm
  obtain ⟨hmode, rfl, hρ⟩ := id htwins
  simp only [Tool.withNode, inMode_node, inMode_capture, hlayer, hlayer']
  split
  · exact htwins
  · cases layer with
    | none => exact ⟨hmode, rfl, hρ₁⟩
    | some layer =>
      obtain ⟨answer, v₂, w₂, hcreate, hcreate', hρ₂⟩ :=
        hm.answers hρ₁ (c := .createPathNode layer t.capture.mode) (by simp)
      simp only [hcreate, hcreate']
      cases answer with
      | error e => exact ⟨hmode, rfl, hρ₂⟩
      | ok node => exact ⟨hmode, rfl, hρ₂⟩

/-- Both write the outline to their node, or remove it if there is none to write. -/
theorem writeOutline (hm : h.Matches k m n ρ) (htwins : Twins m n ρ (t, v) (u, w))
    (outline : Curve R) :
    Twins m n ρ (writeOutline h t v outline) (writeOutline k u w outline) := by
  rw [Tool.writeOutline, Tool.writeOutline]
  split
  · exact htwins.withoutNode hm
  · obtain ⟨hmode', htool, hρ'⟩ := htwins.withNode hm
    generalize Tool.withNode h t v = p at hmode' htool hρ'
    generalize Tool.withNode k u w = q at htool hρ'
    obtain ⟨t', v'⟩ := p
    obtain ⟨_, w'⟩ := q
    dsimp only at htool hρ'
    subst htool
    simp only [inMode_node, hm.toDocument hρ']
    cases t'.node with
    | none => exact ⟨hmode', rfl, hρ'⟩
    | some node => exact ⟨hmode', rfl, hm.tell hρ' (by simp)⟩

/-- Both tools commit their strokes, each by its own name. -/
theorem commit (hm : h.Matches k m n ρ) (htwins : Twins m n ρ (t, v) (u, w)) :
    Twins m n ρ (commit h t v) (commit k u w) := by
  obtain ⟨hmode, rfl, hρ⟩ := id htwins
  have hfinishing : Twins m n ρ (t.finishing, v) ((t.inMode n).finishing, w) := ⟨hmode, rfl, hρ⟩
  obtain ⟨hmode', htool, hρ'⟩ :=
    hfinishing.writeOutline hm (t.capture.finish (t.tolerance (h.view v)))
  obtain ⟨answer, -, -, hρ''⟩ := hm.commit hρ'
  simp only [commit_eq, inMode_capture, tolerance_inMode hm hρ hmode, htool]
  refine ⟨hmode', rfl, hm.tell ?_ (by simp)⟩
  rw [hmode']
  exact hρ''

/-- Both tools stop their timer and clear their preview, and commit if there was a sample. -/
theorem release (hm : h.Matches k m n ρ) (htwins : Twins m n ρ (t, v) (u, w)) (button : UInt8) :
    TwinReactions m n ρ (release h t v button) (release k u w button) := by
  obtain ⟨hmode', htool, hρ'⟩ := htwins.withoutTimer hm
  obtain ⟨hmode, rfl, hρ⟩ := id htwins
  rw [Tool.release, Tool.release, inMode_phase]
  by_cases hidle : button ≠ 1 ∨ t.phase = .idle
  · rw [if_pos hidle, if_pos hidle]
    exact ⟨rfl, htwins⟩
  · rw [if_neg hidle, if_neg hidle]
    generalize Tool.withoutTimer h t v = p at hmode' htool hρ'
    generalize Tool.withoutTimer k (t.inMode n) w = q at htool hρ'
    obtain ⟨t', v'⟩ := p
    obtain ⟨_, w'⟩ := q
    dsimp only at hmode' htool hρ'
    subst htool
    have hρ'' : ρ (h.tell .clearPreview v') (k.tell .clearPreview w') := hm.tell hρ' (by simp)
    dsimp only
    rw [inMode_dragging]
    by_cases hdragging : t'.dragging
    · rw [if_pos hdragging, if_pos hdragging]
      exact ⟨rfl, commit hm ⟨hmode', rfl, hρ''⟩⟩
    · rw [if_neg hdragging, if_neg hdragging]
      exact ⟨rfl, hmode', rfl, hρ''⟩

theorem withoutPreview (hm : h.Matches k m n ρ) (htwins : Twins m n ρ (t, v) (u, w)) :
    Twins m n ρ (withoutPreview h t v) (withoutPreview k u w) := by
  obtain ⟨hmode, rfl, hρ⟩ := id htwins
  rw [Tool.withoutPreview, Tool.withoutPreview, inMode_phase]
  split
  · exact htwins
  · exact ⟨hmode, rfl, hm.tell (hm.tell hρ (by simp)) (by simp)⟩

theorem cancel (hm : h.Matches k m n ρ) (htwins : Twins m n ρ (t, v) (u, w)) :
    Twins m n ρ (cancel h t v) (cancel k u w) := by
  obtain ⟨hmode', htool, hρ'⟩ := ((htwins.withoutTimer hm).withoutNode hm).withoutPreview hm
  rw [cancel_eq, cancel_eq]
  exact ⟨hmode', congrArg abandoned htool, hρ'⟩

/-! ### Events -/

theorem press (hm : h.Matches k m n ρ) (htwins : Twins m n ρ (t, v) (u, w)) (key : Key) :
    TwinReactions m n ρ (press h t v key) (press k u w key) := by
  have hcancel := htwins.cancel hm
  obtain ⟨hmode, rfl, hρ⟩ := id htwins
  cases key with
  | up | down | left | right => exact ⟨rfl, hmode, rfl, hρ⟩
  | escape => exact ⟨rfl, hcancel⟩
  | other code => exact ⟨rfl, htwins⟩

/-- During a gesture there are no begins. -/
theorem handle (hm : h.Matches k m n ρ) (htwins : Twins m n ρ (t, v) (u, w))
    (hbusy : t.phase ≠ .idle) (e : Event R) :
    TwinReactions m n ρ (handle h t v e) (handle k u w e) := by
  cases e with
  | press point time button =>
    rw [Tool.handle, Tool.handle]
    split
    · obtain ⟨-, rfl, -⟩ := id htwins
      rw [begin, begin, inMode_phase, if_pos hbusy, if_pos hbusy]
      exact ⟨rfl, htwins⟩
    · exact ⟨rfl, htwins⟩
  | move point time buttons => exact htwins.move hm point time buttons
  | release point time button => exact htwins.release hm button
  | key key => exact htwins.press hm key

end Twins

end Tool

/-! ## Settings -/

/-- The settings with another stroke mode. -/
def Settings.inMode (s : Settings R) (n : StrokeMode) : Settings R :=
  { s with mode := n }

/-- The input chooses a stroke mode. -/
def Input.setsMode : Input R σ → Bool
  | .setSetting key value =>
    key = "mode" && value.all fun text => (StrokeMode.ofText? text).isSome
  | _ => false

theorem Preference.key_of_ofKey? {key : String} {p : Preference}
    (h : Preference.ofKey? key = some p) : p.key = key := by
  simpa using List.find?_some h

@[simp]
theorem Settings.put_inMode (s : Settings R) (n : StrokeMode) (q : Quantity) (a : R) :
    (s.inMode n).put q a = (s.put q a).inMode n := by
  cases q <;> rfl

@[simp]
theorem Settings.put_mode (s : Settings R) (q : Quantity) (a : R) : (s.put q a).mode = s.mode := by
  cases q <;> rfl

/-- A setting that does not choose the mode is set alike in every mode. -/
theorem Settings.set_inMode [DecimalScalar R] (s : Settings R) (n : StrokeMode) {key : String}
    {value : Option String} (hkey : (Input.setSetting key value : Input R σ).setsMode = false) :
    (∃ e, s.set key value = .error e ∧ (s.inMode n).set key value = .error e) ∨
      ∃ s', s.set key value = .ok s' ∧ (s.inMode n).set key value = .ok (s'.inMode n) ∧
        s'.mode = s.mode := by
  unfold set
  cases hp : Preference.ofKey? key with
  | none => exact .inl ⟨_, rfl, rfl⟩
  | some p =>
    cases p with
    | quantity q =>
      cases value with
      | none => exact .inr ⟨_, rfl, congrArg _ (put_inMode _ _ _ _), put_mode _ _ _⟩
      | some text =>
        dsimp only
        cases (Preference.number? text : Option R) with
        | none => exact .inl ⟨_, rfl, rfl⟩
        | some a => exact .inr ⟨_, rfl, congrArg _ (put_inMode _ _ _ _), put_mode _ _ _⟩
    | mode =>
      obtain rfl := Preference.key_of_ofKey? hp
      cases value with
      | none => cases hkey
      | some text =>
        have htext : StrokeMode.ofText? text = none := by
          simpa [Input.setsMode, Preference.key] using hkey
        dsimp only
        rw [htext]
        exact .inl ⟨_, rfl, rfl⟩
    | timer => cases value <;> exact .inr ⟨_, rfl, rfl, rfl⟩

/-! ## Runs -/

/-- What a tool returns. -/
inductive Reply where
  /-- Whether it consumed an event or a tick. -/
  | consumed (b : Bool)
  /-- Whether it took a setting. -/
  | setting (r : Except SettingsError Unit)
  /-- Nothing. -/
  | none

/-- The inputs are the same, and hosts in related states change into related ones. -/
inductive Input.Alike (ρ : σ → τ → Prop) : Input R σ → Input R τ → Prop where
  | event (e : Event R) : Alike ρ (.event e) (.event e)
  | tick : Alike ρ .tick .tick
  | setSetting (key : String) (value : Option String) :
      Alike ρ (.setSetting key value) (.setSetting key value)
  | cancel : Alike ρ .cancel .cancel
  | elapse {f : σ → σ} {g : τ → τ} (hρ : ∀ v w, ρ v w → ρ (f v) (g w)) :
      Alike ρ (.elapse f) (.elapse g)

namespace Tool

variable [DecimalScalar R] {h : Host R σ} {k : Host R τ}

/-- What a tool returns for an input. -/
def reply (h : Host R σ) (x : Tool R × σ × List (Exchange R)) : Input R σ → Reply
  | .event e => .consumed (handle h.traced x.1 x.2 e).consumed
  | .tick => .consumed (tick h.traced x.1 x.2).consumed
  | .setSetting key value => .setting ((x.1.setSetting key value).map fun _ => ())
  | .cancel | .elapse _ => .none

/-- What a tool returns for inputs, one after the other. -/
def replies (h : Host R σ) : List (Input R σ) → Tool R × σ × List (Exchange R) → List Reply
  | [], _ => []
  | input :: inputs, x => reply h x input :: replies h inputs (step h x input)

/-- Every input comes during the gesture. -/
def Lasts (h : Host R σ) : List (Input R σ) → Tool R × σ × List (Exchange R) → Prop
  | [], _ => True
  | input :: inputs, x => x.1.phase ≠ .idle ∧ Lasts h inputs (step h x input)

/-- A setting during a gesture leaves the capture alone. -/
theorem setSetting_of_busy {t : Tool R} (hbusy : t.phase ≠ .idle) (key : String)
    (value : Option String) : t.setSetting key value =
      (t.settings.set key value).map fun settings => { t with settings } := by
  rw [setSetting]
  cases t.settings.set key value with
  | error e => rfl
  | ok settings =>
    dsimp only
    rw [if_neg hbusy]
    rfl

/-- A setting that does not choose the mode is set alike by tools in every mode. -/
theorem setSetting_inMode {t : Tool R} (hbusy : t.phase ≠ .idle) (n : StrokeMode) {key : String}
    {value : Option String} (hkey : (Input.setSetting key value : Input R σ).setsMode = false) :
    (∃ e, t.setSetting key value = .error e ∧ (t.inMode n).setSetting key value = .error e) ∨
      ∃ t', t.setSetting key value = .ok t' ∧
        (t.inMode n).setSetting key value = .ok (t'.inMode n) ∧
        t'.settings.mode = t.settings.mode := by
  have hbusy' : (t.inMode n).phase ≠ .idle := hbusy
  rw [setSetting_of_busy hbusy, setSetting_of_busy hbusy']
  rcases t.settings.set_inMode n hkey with ⟨e, hset, hset'⟩ | ⟨s', hset, hset', hmode'⟩
  · exact .inl ⟨e, by rw [hset]; rfl, congrArg (Except.map _) hset'⟩
  · exact .inr ⟨_, by rw [hset]; rfl, congrArg (Except.map _) hset', hmode'⟩

namespace Twins

variable {x : Tool R × σ × List (Exchange R)} {y : Tool R × τ × List (Exchange R)}

/-- During a gesture twins reply the same and stay twins. -/
theorem step (hm : h.Matches k m n ρ) (htwins : Twins m n (Traced m n ρ) x y)
    (hbusy : x.1.phase ≠ .idle) {i : Input R σ} {j : Input R τ} (halike : i.Alike ρ j)
    (hsets : i.setsMode = false) :
    reply h x i = reply k y j ∧ Twins m n (Traced m n ρ) (step h x i) (step k y j) := by
  cases halike with
  | event e =>
    obtain ⟨hconsumed, htwins'⟩ := htwins.handle hm.traced hbusy e
    exact ⟨congrArg Reply.consumed hconsumed, htwins'⟩
  | tick =>
    obtain ⟨hconsumed, htwins'⟩ := htwins.tick hm.traced
    exact ⟨congrArg Reply.consumed hconsumed, htwins'⟩
  | setSetting key value =>
    obtain ⟨hmode, htool, hρ⟩ := id htwins
    rw [reply, reply, Tool.step, Tool.step, htool]
    rcases setSetting_inMode hbusy n hsets with ⟨e, hset, hset'⟩ | ⟨t', hset, hset', hmode'⟩
    · rw [hset, hset']
      exact ⟨rfl, htwins⟩
    · rw [hset, hset']
      exact ⟨rfl, hmode'.trans hmode, rfl, hρ⟩
  | cancel => exact ⟨rfl, htwins.cancel hm.traced⟩
  | elapse hρ =>
    exact ⟨rfl, htwins.mode, htwins.tool, hρ _ _ htwins.world.1, htwins.world.2⟩

/-- So do they over all inputs of a gesture. -/
theorem run (hm : h.Matches k m n ρ) {inputs : List (Input R σ)} {inputs' : List (Input R τ)}
    (halike : List.Forall₂ (Input.Alike ρ) inputs inputs')
    (hsets : ∀ i ∈ inputs, i.setsMode = false) (htwins : Twins m n (Traced m n ρ) x y)
    (hlasts : Lasts h inputs x) :
    replies h inputs x = replies k inputs' y ∧
      Twins m n (Traced m n ρ) (run h inputs x) (run k inputs' y) := by
  induction halike generalizing x y with
  | nil => exact ⟨rfl, htwins⟩
  | cons hij _ ih =>
    obtain ⟨hi, hinputs⟩ := List.forall_mem_cons.1 hsets
    obtain ⟨hreply, htwins'⟩ := htwins.step hm hlasts.1 hij hi
    obtain ⟨hreplies, hrun⟩ := ih hinputs htwins' hlasts.2
    exact ⟨congrArg₂ List.cons hreply hreplies, hrun⟩

end Twins

end Tool

end Freehand
