import Freehand.Tool.Run

/-!
# What the tool asks of its host

A run of the tool is one *block* of calls after the other, and at the end what an open gesture has
asked for so far (`Tool.run_grammatical`).  A block is a begin that was refused, or a gesture from
its begin to where it is cancelled or released.

* The inputs are events, ticks of the timer, settings and cancellations, in any order.  In between
  the host may change in any way.  It may refuse any call.
* The calls of a gesture are written into its layer, the one that it began with.
* A timer that was started is stopped before the gesture ends.
* No node is ever removed.
-/

namespace Freehand

variable {R σ : Type}

/-! ## The grammar of calls -/

namespace Exchange

/-- The calls of a begin that was refused. -/
inductive Refused : List (Exchange R) → Prop where
  | noLayer : Refused [⟨.currentLayer, (none : Option LayerHandle)⟩]
  | noState (layer : LayerHandle) (e : DocumentError) :
      Refused [⟨.currentLayer, some layer⟩, ⟨.layerState layer, .error e⟩]
  | closed {layer : LayerHandle} {state : LayerState}
      (h : (state.hidden || state.locked) = true) :
      Refused [⟨.currentLayer, some layer⟩, ⟨.layerState layer, .ok state⟩]

/-- The calls of a begin in a layer, with the timer that was started. -/
inductive Begun (layer : LayerHandle) : Option TimerId → List (Exchange R) → Prop where
  | untimed {state : LayerState} (h : (state.hidden || state.locked) = false) :
      Begun layer none [⟨.currentLayer, some layer⟩, ⟨.layerState layer, .ok state⟩]
  | timed {state : LayerState} (h : (state.hidden || state.locked) = false) (interval : UInt64)
      (timer : TimerId) :
      Begun layer (some timer) [⟨.currentLayer, some layer⟩, ⟨.layerState layer, .ok state⟩,
        ⟨.startTimer interval, timer⟩]

/-- The calls of a gesture that is not over, and whether a sample was shown. -/
inductive Open (layer : LayerHandle) (timer : Option TimerId) :
    (dragging : Bool) → List (Exchange R) → Prop where
  | begun {calls : List (Exchange R)} (h : Begun layer timer calls) : Open layer timer false calls
  | sampled {dragging : Bool} {calls : List (Exchange R)} (h : Open layer timer dragging calls)
      (current : Curve R) (settled : List (Curve R)) (region : Option (Rect R)) :
      Open layer timer true
        (calls ++ [⟨.showPreview current settled, ()⟩, ⟨.requestRedraw region, ()⟩])

/-- The call that stops a timer, if there is one. -/
def stop : Option TimerId → List (Exchange R)
  | some timer => [⟨.cancelTimer timer, ()⟩]
  | none => []

/-- The calls that write a stroke into a layer.  An empty stroke is not written. -/
inductive Written (layer : LayerHandle) : List (Exchange R) → Prop where
  | nothing : Written layer []
  | refused (mode : StrokeMode) (e : DocumentError) :
      Written layer [⟨.createPathNode layer mode, .error e⟩]
  | stored (mode : StrokeMode) (node : NodeHandle) (elements : Path R)
      (answer : Except DocumentError Unit) :
      Written layer [⟨.createPathNode layer mode, .ok node⟩, ⟨.setPathData node elements, answer⟩]

/-- No path is given an empty geometry. -/
def Drawn (calls : List (Exchange R)) : Prop :=
  ∀ x ∈ calls, ∀ node elements, x.call = .setPathData node elements → elements ≠ []

/-- The calls that end a gesture. -/
inductive Ended (layer : LayerHandle) (timer : Option TimerId) :
    (dragging : Bool) → List (Exchange R) → Prop where
  | cancelled (dragging : Bool) (region : Option (Rect R)) :
      Ended layer timer dragging
        (stop timer ++ [⟨.clearPreview, ()⟩, ⟨.requestRedraw region, ()⟩])
  | released : Ended layer timer false (stop timer ++ [⟨.clearPreview, ()⟩])
  | committed {calls : List (Exchange R)} (h : Written layer calls) (label : String)
      (answer : Except DocumentError Unit) (region : Option (Rect R)) :
      Ended layer timer true (stop timer ++ ⟨.clearPreview, ()⟩ ::
        (calls ++ [⟨.commit label, answer⟩, ⟨.requestRedraw region, ()⟩]))

/-- The calls of a refused begin or of a whole gesture. -/
inductive Block : List (Exchange R) → Prop where
  | refused {calls : List (Exchange R)} (h : Refused calls) : Block calls
  | gesture {layer : LayerHandle} {timer : Option TimerId} {dragging : Bool}
      {calls calls' : List (Exchange R)} (h : Open layer timer dragging calls)
      (h' : Ended layer timer dragging calls') : Block (calls ++ calls')

/-- No node is removed. -/
def Keeps (calls : List (Exchange R)) : Prop :=
  ∀ x ∈ calls, ∀ node, x.call ≠ .removeNode node

@[simp]
theorem keeps_nil : Keeps ([] : List (Exchange R)) :=
  fun _ hmem => by cases hmem

@[simp]
theorem keeps_cons {x : Exchange R} {calls : List (Exchange R)} :
    Keeps (x :: calls) ↔ (∀ node, x.call ≠ .removeNode node) ∧ Keeps calls :=
  List.forall_mem_cons

@[simp]
theorem keeps_append {calls calls' : List (Exchange R)} :
    Keeps (calls ++ calls') ↔ Keeps calls ∧ Keeps calls' :=
  List.forall_mem_append

variable {layer : LayerHandle} {timer : Option TimerId} {dragging : Bool}
  {calls : List (Exchange R)}

theorem Open.keeps (h : Open layer timer dragging calls) : Keeps calls := by
  induction h with
  | begun h => cases h <;> simp
  | sampled _ _ _ _ ih => simp [ih]

theorem keeps_stop (timer : Option TimerId) : Keeps (stop timer : List (Exchange R)) := by
  cases timer <;> simp [stop]

theorem Written.keeps (h : Written layer calls) : Keeps calls := by
  cases h <;> simp

theorem Ended.keeps (h : Ended layer timer dragging calls) : Keeps calls := by
  cases h with
  | cancelled => simp [keeps_stop]
  | released => simp [keeps_stop]
  | committed h => simp [keeps_stop, h.keeps]

theorem Block.keeps (h : Block calls) : Keeps calls := by
  cases h with
  | refused h => cases h <;> simp
  | gesture h h' => exact keeps_append.2 ⟨h.keeps, h'.keeps⟩

end Exchange

open Exchange

namespace Tool

/-! ## Where a tool is in a gesture -/

/-- What the calls depend on. -/
def control (t : Tool R) :
    Phase × Option LayerHandle × Option NodeHandle × Option TimerId × Bool :=
  (t.phase, t.layer, t.node, t.timer, t.dragging)

/-- What the tool knows of the stroke and of the area that it covers. -/
def drawing (t : Tool R) : Capture R × Option (Rect R) :=
  (t.capture, t.previewRegion)

/-- The tool is at rest, or in a gesture that made these calls. -/
inductive Stands (t : Tool R) : List (Exchange R) → Prop where
  | idle (hphase : t.phase = .idle) (hnode : t.node = none) (htimer : t.timer = none)
      (hdragging : t.dragging = false) : Stands t []
  | capturing {layer : LayerHandle} {calls : List (Exchange R)} (hphase : t.phase = .capturing)
      (hlayer : t.layer = some layer) (hnode : t.node = none)
      (hopen : Open layer t.timer t.dragging calls) : Stands t calls

/-- The calls are whole blocks, and those of the gesture that the tool is in. -/
def Follows (t : Tool R) (calls : List (Exchange R)) : Prop :=
  ∃ (blocks : List (List (Exchange R))) (tail : List (Exchange R)),
    calls = blocks.flatten ++ tail ∧ (∀ block ∈ blocks, Block block) ∧ t.Stands tail

variable {t t' : Tool R} {calls calls' : List (Exchange R)} {layer : LayerHandle}

theorem Stands.congr (h : t.Stands calls) (hcontrol : t'.control = t.control) :
    t'.Stands calls := by
  simp only [control, Prod.mk.injEq] at hcontrol
  obtain ⟨hphase', hlayer', hnode', htimer', hdragging'⟩ := hcontrol
  cases h with
  | idle hphase hnode htimer hdragging =>
    exact .idle (hphase'.trans hphase) (hnode'.trans hnode) (htimer'.trans htimer)
      (hdragging'.trans hdragging)
  | capturing hphase hlayer hnode hopen =>
    refine .capturing (hphase'.trans hphase) (hlayer'.trans hlayer) (hnode'.trans hnode) ?_
    rwa [htimer', hdragging']

theorem Stands.of_idle (h : t.Stands calls) (hphase : t.phase = .idle) :
    calls = [] ∧ t.node = none ∧ t.timer = none ∧ t.dragging = false := by
  cases h with
  | idle _ hnode htimer hdragging => exact ⟨rfl, hnode, htimer, hdragging⟩
  | capturing hcapturing =>
    rw [hphase] at hcapturing
    cases hcapturing

theorem Stands.of_busy (h : t.Stands calls) (hphase : t.phase ≠ .idle) :
    t.phase = .capturing ∧ t.node = none ∧
      ∃ layer, t.layer = some layer ∧ Open layer t.timer t.dragging calls := by
  cases h with
  | idle hidle => exact absurd hidle hphase
  | capturing hcapturing hlayer hnode hopen => exact ⟨hcapturing, hnode, _, hlayer, hopen⟩

theorem Stands.node_eq (h : t.Stands calls) : t.node = none := by
  cases h with
  | idle _ hnode => exact hnode
  | capturing _ _ hnode => exact hnode

theorem Stands.of_control (h : t.control = (.idle, t.layer, none, none, false)) :
    t.Stands [] := by
  simp only [control, Prod.mk.injEq, true_and] at h
  obtain ⟨hphase, hnode, htimer, hdragging⟩ := h
  exact .idle hphase hnode htimer hdragging

namespace Follows

theorem congr (h : t.Follows calls) (hcontrol : t'.control = t.control) : t'.Follows calls := by
  obtain ⟨blocks, tail, hcalls, hblocks, htail⟩ := h
  exact ⟨blocks, tail, hcalls, hblocks, htail.congr hcontrol⟩

/-- The open gesture goes on, or one begins. -/
theorem extend (h : t.Follows calls)
    (hstands : ∀ {tail}, t.Stands tail → t'.Stands (tail ++ calls')) :
    t'.Follows (calls ++ calls') := by
  obtain ⟨blocks, tail, rfl, hblocks, htail⟩ := h
  exact ⟨blocks, tail ++ calls', by rw [List.append_assoc], hblocks, hstands htail⟩

/-- A gesture begins. -/
theorem opened (h : t.Follows calls) (hidle : ∀ {tail}, t.Stands tail → tail = [])
    (hstands : t'.Stands calls') : t'.Follows (calls ++ calls') :=
  h.extend fun htail => by rwa [hidle htail, List.nil_append]

/-- The calls that the tool stands at become a block, and the tool comes to rest. -/
theorem close (h : t.Follows calls) (hblock : ∀ {tail}, t.Stands tail → Block (tail ++ calls'))
    (hrest : t'.Stands []) : t'.Follows (calls ++ calls') := by
  obtain ⟨blocks, tail, rfl, hblocks, htail⟩ := h
  refine ⟨blocks ++ [tail ++ calls'], [], by simp, fun block hmem => ?_, hrest⟩
  rcases List.mem_append.1 hmem with hold | hnew
  · exact hblocks block hold
  · rw [List.mem_singleton.1 hnew]
    exact hblock htail

end Follows

/-! ## Settings -/

theorem control_syncCapture (t : Tool R) : t.syncCapture.control = t.control := by
  rw [syncCapture]
  split <;> rfl

theorem control_setSetting [DecimalScalar R] {key : String} {value : Option String}
    (h : t.setSetting key value = .ok t') : t'.control = t.control := by
  rw [setSetting] at h
  split at h
  · cases h
  · cases h
    split
    · exact control_syncCapture _
    · rfl

/-! ## Beginning -/

theorem answer_traced {h : Host R σ} {c : Call R} {answer : c.Answer}
    {w w' : σ × List (Exchange R)} (heq : h.traced.answer c w = (answer, w')) :
    w'.2 = w.2 ++ [⟨c, answer⟩] := by
  cases heq
  rfl

variable [Scalar R] {h : Host R σ} {w : σ × List (Exchange R)}

omit [Scalar R] in
/-- A tool starts a timer, or it makes no call. -/
theorem withTimer_cases (h : Host R σ) (t : Tool R) (w : σ × List (Exchange R)) :
    withTimer h.traced t w = (t, w) ∨ ∃ timer w', withTimer h.traced t w =
      ({ t with timer := some timer }, w') ∧
      w'.2 = w.2 ++ [⟨.startTimer t.settings.sampleInterval, timer⟩] := by
  rw [withTimer]
  split
  · exact .inr ⟨_, _, rfl, rfl⟩
  · exact .inl rfl

theorem control_started (t : Tool R) (view : View R) (layer : LayerHandle)
    (point : Point R) (time : UInt64) : (t.started view layer point time).control =
      (.capturing, some layer, none, t.timer, false) := by
  have htimer : t.syncCapture.timer = t.timer :=
    congrArg (fun control => control.2.2.2.1) (control_syncCapture t)
  simp only [control, started, htimer]

theorem drawing_started (t : Tool R) (view : View R) (layer : LayerHandle) (point : Point R)
    (time : UInt64) :
    (t.started view layer point time).drawing = (.ofMode t.settings.mode, none) := by
  simp only [drawing, started, syncCapture]
  split
  next hmode => rw [Capture.reset, hmode]
  next => cases t.settings.mode <;> rfl

/-- A begin is refused and leaves the tool alone, or the tool captures in the layer it began in,
with nothing drawn. -/
theorem begin_traced (h : Host R σ) {t : Tool R} (w : σ × List (Exchange R))
    (hidle : t.phase = .idle) (hnone : t.timer = none) (point : Point R) (time : UInt64) :
    ∃ t' w' calls, begin h.traced t w point time = ⟨true, t', w'⟩ ∧ w'.2 = w.2 ++ calls ∧
      (t' = t ∧ Refused calls ∨ ∃ layer timer, Begun layer timer calls ∧
        t'.control = (.capturing, some layer, none, timer, false) ∧
        t'.drawing = (.ofMode t.settings.mode, none)) := by
  rw [begin, if_neg fun hne => hne hidle]
  split
  next w₁ hlayer => exact ⟨t, w₁, _, rfl, answer_traced hlayer, .inl ⟨rfl, .noLayer⟩⟩
  next layer w₁ hlayer =>
    have hw₁ := answer_traced hlayer
    split
    next e w₂ hstate =>
      refine ⟨t, w₂, _, rfl, ?_, .inl ⟨rfl, .noState layer e⟩⟩
      rw [answer_traced hstate, hw₁, List.append_assoc]
      rfl
    next state w₂ hstate =>
      have hw₂ : w₂.2 = w.2 ++ [⟨.currentLayer, some layer⟩, ⟨.layerState layer, .ok state⟩] := by
        rw [answer_traced hstate, hw₁, List.append_assoc]
        rfl
      split
      next hclosed => exact ⟨t, w₂, _, rfl, hw₂, .inl ⟨rfl, .closed hclosed⟩⟩
      next hopen =>
        rw [Bool.not_eq_true] at hopen
        have hstarted := control_started t (h.traced.view w₂) layer point time
        have hdrawing := drawing_started t (h.traced.view w₂) layer point time
        generalize t.started (h.traced.view w₂) layer point time = t₁ at hstarted hdrawing ⊢
        rcases withTimer_cases h t₁ w₂ with huntimed | ⟨timer, w₃, htimed, hw₃⟩
        · rw [huntimed]
          rw [hnone] at hstarted
          exact ⟨t₁, w₂, _, rfl, hw₂, .inr ⟨layer, none, .untimed hopen, hstarted, hdrawing⟩⟩
        · rw [htimed]
          have hbegun : Begun (R := R) layer (some timer) _ :=
            .timed hopen t₁.settings.sampleInterval timer
          refine ⟨_, w₃, _, rfl, ?_, .inr ⟨layer, some timer, hbegun, ?_, hdrawing⟩⟩
          · rw [hw₃, hw₂, List.append_assoc]
            rfl
          · simp only [control, Prod.mk.injEq] at hstarted
            simp only [control, hstarted]

/-- Where a gesture begins, a new block of calls does. -/
theorem Follows.begin (hf : t.Follows w.2) (point : Point R) (time : UInt64) :
    (begin h.traced t w point time).tool.Follows (begin h.traced t w point time).world.2 := by
  by_cases hidle : t.phase = .idle
  · obtain ⟨-, tail, -, -, htail⟩ := id hf
    obtain ⟨rfl, -, hnone, -⟩ := htail.of_idle hidle
    have hnil : ∀ {tail}, t.Stands tail → tail = [] := fun htail => (htail.of_idle hidle).1
    obtain ⟨t', w', calls, heq, hw', ⟨rfl, hrefused⟩ | ⟨layer, timer, hbegun, ht', -⟩⟩ :=
      begin_traced h w hidle hnone point time
    · rw [heq, hw']
      exact hf.close (fun htail => by rw [hnil htail]; exact .refused hrefused) htail
    · rw [heq, hw']
      simp only [control, Prod.mk.injEq] at ht'
      obtain ⟨hphase', hlayer', hnode', htimer', hdragging'⟩ := ht'
      refine hf.opened hnil (.capturing hphase' hlayer' hnode' ?_)
      rw [htimer', hdragging']
      exact .begun hbegun
  · rw [Tool.begin, if_pos hidle]
    exact hf

/-! ## Sampling -/

/-- A sample is captured, shown and repainted, or the pen is all that changes. -/
theorem sample_cases (h : Host R σ) (t : Tool R) (w : σ) (point : Point R) :
    (∃ pen, sample h t w point = ⟨false, { t with pen }, w⟩) ∨
    ∃ t' pen tolerance c, c = (t.capture.addSample pen t.settings).fit tolerance ∧
      sample h t w point = ⟨true, t', h.tell (.requestRedraw (Rect.join t.previewRegion
        c.preview.bounds)) (h.tell (.showPreview c.preview c.settled) w)⟩ ∧
      t'.control = (.capturing, t.layer, t.node, t.timer, true) ∧
      t'.drawing = (c, c.preview.bounds) := by
  rw [sample]
  dsimp only
  split
  · exact .inl ⟨_, rfl⟩
  · exact .inr ⟨_, _, _, _, rfl, rfl, rfl, rfl⟩

/-- A sample shows a preview and asks for a repaint of it. -/
theorem Follows.sample (hf : t.Follows w.2) (hphase : t.phase = .capturing) (point : Point R) :
    (sample h.traced t w point).tool.Follows (sample h.traced t w point).world.2 := by
  rcases sample_cases h.traced t w point with ⟨pen, heq⟩ | ⟨t', pen, tolerance, c, -, heq, ht', -⟩
  · rw [heq]
    exact hf.congr rfl
  · rw [heq]
    show t'.Follows (w.2 ++ [⟨.showPreview _ _, ()⟩] ++ [⟨.requestRedraw _, ()⟩])
    rw [List.append_assoc]
    simp only [control, Prod.mk.injEq] at ht'
    obtain ⟨hphase', hlayer', hnode', htimer', hdragging'⟩ := ht'
    refine hf.extend fun htail => ?_
    obtain ⟨-, hnode, layer, hlayer, hopen⟩ := htail.of_busy (by rw [hphase]; decide)
    refine .capturing hphase' (hlayer'.trans hlayer) (hnode'.trans hnode) ?_
    rw [htimer', hdragging']
    exact .sampled hopen _ _ _

/-- A move adds the calls of a sample, or none. -/
theorem Follows.move (hf : t.Follows w.2) (point : Point R) (time : UInt64) (buttons : Buttons) :
    (move h.traced t w point time buttons).tool.Follows
      (move h.traced t w point time buttons).world.2 := by
  rw [Tool.move]
  split
  · exact hf
  next hphase =>
    split
    · exact hf
    · have hcapturing : t.phase = .capturing :=
        Decidable.of_not_not fun hne => hphase (.inl hne)
      have hsample := hf.sample (h := h) hcapturing point
      dsimp only
      split
      · exact hsample.congr rfl
      · exact hsample

theorem Follows.tick (hf : t.Follows w.2) :
    (tick h.traced t w).tool.Follows (tick h.traced t w).world.2 := by
  rw [Tool.tick]
  split
  · exact hf
  next hphase =>
    split
    next point _ => exact hf.sample (Decidable.of_not_not fun hne => hphase (.inl hne)) point
    next => exact hf

/-! ## Ending -/

omit [Scalar R] in
theorem withoutTimer_traced (h : Host R σ) (t : Tool R) (w : σ × List (Exchange R)) :
    ∃ w', withoutTimer h.traced t w = ({ t with timer := none }, w') ∧
      w'.2 = w.2 ++ stop t.timer := by
  rw [withoutTimer]
  split
  next timer htimer => exact ⟨_, rfl, by rw [htimer]; rfl⟩
  next hnone =>
    refine ⟨w, ?_, by rw [hnone, stop, List.append_nil]⟩
    rw [← hnone]

omit [Scalar R] in
/-- A node for a stroke is asked for in the layer of the gesture. -/
theorem withNode_traced (h : Host R σ) {t : Tool R} (w : σ × List (Exchange R))
    {layer : LayerHandle} (hlayer : t.layer = some layer) (hnode : t.node = none) :
    (∃ e w', withNode h.traced t w = (t, w') ∧
      w'.2 = w.2 ++ [⟨.createPathNode layer t.capture.mode, .error e⟩]) ∨
    ∃ node w', withNode h.traced t w = ({ t with node := some node }, w') ∧
      w'.2 = w.2 ++ [⟨.createPathNode layer t.capture.mode, .ok node⟩] := by
  simp only [withNode, targetLayer, hlayer, hnode, Option.isSome_none, Bool.false_eq_true,
    if_false]
  split
  next e w' hcreate => exact .inl ⟨e, w', rfl, answer_traced hcreate⟩
  next node w' hcreate => exact .inr ⟨node, w', rfl, answer_traced hcreate⟩

/-- A stroke that is not empty is written into the layer of the gesture. -/
theorem writeOutline_traced (h : Host R σ) {t : Tool R} (w : σ × List (Exchange R))
    (outline : Curve R) {layer : LayerHandle} (hlayer : t.layer = some layer)
    (hnode : t.node = none) : ∃ node w' calls, writeOutline h.traced t w outline =
      ({ t with node }, w') ∧ w'.2 = w.2 ++ calls ∧ Written layer calls ∧ Drawn calls := by
  have hself : { t with node := none } = t := by rw [← hnode]
  rw [writeOutline]
  split
  · refine ⟨none, w, [], ?_, (List.append_nil _).symm, .nothing, by simp [Drawn]⟩
    rw [withoutNode, hnode, hself]
  next hdrawn =>
    rcases withNode_traced h w hlayer hnode with ⟨e, w', heq, hw'⟩ | ⟨node, w', heq, hw'⟩
    · refine ⟨none, w', _, ?_, hw', .refused _ e, by simp [Drawn]⟩
      rw [heq, hself]
      simp only [hnode]
    · rw [heq]
      have helements : (outline.transformed (h.traced.view w').toDocument).elements ≠ [] := by
        simpa [Curve.isEmpty, Curve.transformed, Path.transformed] using hdrawn
      refine ⟨some node, _, [⟨.createPathNode layer t.capture.mode, .ok node⟩,
        ⟨.setPathData node (outline.transformed (h.traced.view w').toDocument).elements,
          (h.answer _ w'.1).1⟩], rfl, ?_, .stored _ node _ _, by simpa [Drawn] using helements⟩
      show w'.2 ++ [_] = _
      rw [hw', List.append_assoc]
      rfl

/-- A stroke is finished, written, committed and repainted, and the tool comes to rest with nothing
drawn. -/
theorem commit_traced (h : Host R σ) {t : Tool R} (w : σ × List (Exchange R))
    {layer : LayerHandle} (hlayer : t.layer = some layer) (hnode : t.node = none) :
    ∃ t' w' tolerance calls label answer, commit h.traced t w = (t', w') ∧
      w'.2 = w.2 ++ (calls ++ [⟨.commit label, answer⟩, ⟨.requestRedraw
        (Rect.join t.previewRegion (t.capture.finish tolerance).bounds), ()⟩]) ∧
      Written layer calls ∧ Drawn calls ∧ t'.control = (.idle, none, none, t.timer, false) ∧
      t'.drawing = (t.capture.reset, none) := by
  rw [commit]
  generalize tolerance _ (h.traced.view w) = tolerance
  -- the stroke is written by a tool that is committing and has forgotten the samples
  obtain ⟨node, w₁, calls, heq, hw₁, hwritten, hdrawn⟩ := writeOutline_traced h
    (t := { t with
      dragging := false
      phase := .committing
      capture := t.capture.reset
      previewRegion := none }) w (t.capture.finish tolerance) hlayer hnode
  simp only [heq]
  refine ⟨{ t with
      dragging := false
      phase := .idle
      layer := none
      node := none
      capture := t.capture.reset
      previewRegion := none }, _, tolerance, calls, t.label,
    (h.answer (.commit t.label) w₁.1).1, rfl, ?_, hwritten, hdrawn, rfl, rfl⟩
  show (w₁.2 ++ [_]) ++ [_] = _
  rw [hw₁, List.append_assoc, List.append_assoc]
  rfl

omit [Scalar R] in
/-- A gesture ends where the calls so far are followed by those of an end. -/
theorem Follows.ended (hf : t.Follows w.2) (hphase : t.phase ≠ .idle)
    (hends : ∀ {layer}, t.layer = some layer → Ended layer t.timer t.dragging calls')
    (hrest : t'.control = (.idle, t'.layer, none, none, false)) : t'.Follows (w.2 ++ calls') := by
  refine hf.close (fun htail => ?_) (.of_control hrest)
  obtain ⟨-, -, layer, hlayer, hopen⟩ := htail.of_busy hphase
  exact .gesture hopen (hends hlayer)

/-- A release before any sample was captured ends the gesture without a stroke. -/
theorem release_traced_of_still (h : Host R σ) {t : Tool R} (w : σ × List (Exchange R))
    (hphase : t.phase ≠ .idle) (hnode : t.node = none) (hdragging : t.dragging = false) :
    ∃ t' w', release h.traced t w 1 = ⟨true, t', w'⟩ ∧
      w'.2 = w.2 ++ (stop t.timer ++ [⟨.clearPreview, ()⟩]) ∧
      t'.control = (.idle, t.layer, none, none, false) ∧
      t'.drawing = (t.capture.reset, t.previewRegion) := by
  obtain ⟨w₁, htimer, hw₁⟩ := withoutTimer_traced h t w
  rw [release, if_neg (by simp [hphase]), htimer]
  dsimp only
  rw [if_neg (by simp [hdragging])]
  refine ⟨_, _, rfl, ?_, by simp only [control, hnode, hdragging], rfl⟩
  show w₁.2 ++ [_] = _
  rw [hw₁, List.append_assoc]
  rfl

/-- A release after a sample was captured finishes, writes, commits and repaints the stroke. -/
theorem release_traced_of_dragging (h : Host R σ) {t : Tool R} (w : σ × List (Exchange R))
    (hphase : t.phase ≠ .idle) (hnode : t.node = none) (hdragging : t.dragging = true)
    {layer : LayerHandle} (hlayer : t.layer = some layer) :
    ∃ t' w' tolerance calls label answer, release h.traced t w 1 = ⟨true, t', w'⟩ ∧
      w'.2 = w.2 ++ (stop t.timer ++ ⟨.clearPreview, ()⟩ ::
        (calls ++ [⟨.commit label, answer⟩, ⟨.requestRedraw
          (Rect.join t.previewRegion (t.capture.finish tolerance).bounds), ()⟩])) ∧
      Written layer calls ∧ Drawn calls ∧ t'.control = (.idle, none, none, none, false) ∧
      t'.drawing = (t.capture.reset, none) := by
  obtain ⟨w₁, htimer, hw₁⟩ := withoutTimer_traced h t w
  obtain ⟨t', w₂, tolerance, calls, label, answer, hcommit, hw₂, hrest⟩ :=
    commit_traced h (t := { t with timer := none }) (h.traced.tell .clearPreview w₁) hlayer hnode
  rw [release, if_neg (by simp [hphase]), htimer]
  dsimp only
  rw [if_pos hdragging, hcommit]
  refine ⟨t', w₂, tolerance, calls, label, answer, rfl, ?_, hrest⟩
  rw [hw₂]
  show w₁.2 ++ [_] ++ _ = _
  rw [hw₁]
  simp only [List.append_assoc, List.singleton_append]
  rfl

/-- Releasing button 1 ends a gesture. -/
theorem release_traced (h : Host R σ) {t : Tool R} (w : σ × List (Exchange R))
    (hphase : t.phase ≠ .idle) (hnode : t.node = none) {layer : LayerHandle}
    (hlayer : t.layer = some layer) : ∃ t' w' calls, release h.traced t w 1 = ⟨true, t', w'⟩ ∧
      t'.control = (.idle, t'.layer, none, none, false) ∧ w'.2 = w.2 ++ calls ∧
      Ended layer t.timer t.dragging calls := by
  cases hdragging : t.dragging with
  | false =>
    obtain ⟨t', w', heq, hw', ht', -⟩ := release_traced_of_still h w hphase hnode hdragging
    have hlayer' : t'.layer = t.layer := congrArg (fun control => control.2.1) ht'
    exact ⟨t', w', _, heq, by rw [ht', hlayer'], hw', .released⟩
  | true =>
    obtain ⟨t', w', tolerance, calls, label, answer, heq, hw', hwritten, -, ht', -⟩ :=
      release_traced_of_dragging h w hphase hnode hdragging hlayer
    have hlayer' : t'.layer = none := congrArg (fun control => control.2.1) ht'
    exact ⟨t', w', _, heq, by rw [ht', hlayer'], hw', .committed hwritten label answer _⟩

/-- A release ends the block of calls, with a stroke if there was a sample. -/
theorem Follows.release (hf : t.Follows w.2) (button : UInt8) :
    (release h.traced t w button).tool.Follows (release h.traced t w button).world.2 := by
  by_cases hends : button = 1 ∧ t.phase ≠ .idle
  · obtain ⟨rfl, hphase⟩ := hends
    obtain ⟨-, tail, -, -, htail⟩ := id hf
    obtain ⟨-, hnode, layer, hlayer, -⟩ := htail.of_busy hphase
    obtain ⟨t', w', calls, heq, hrest, hw', hended⟩ := release_traced h w hphase hnode hlayer
    rw [heq, hw']
    refine hf.ended hphase (fun hlayer' => ?_) hrest
    obtain rfl : layer = _ := Option.some.inj (hlayer.symm.trans hlayer')
    exact hended
  · have hneither : button ≠ 1 ∨ t.phase = .idle :=
      (Decidable.not_and_iff_not_or_not.1 hends).imp_right Decidable.of_not_not
    rw [Tool.release, if_pos hneither]
    exact hf

theorem Stands.phase_release (h : Host R σ) (htail : t.Stands calls) (w : σ × List (Exchange R)) :
    (release h.traced t w 1).tool.phase = .idle := by
  cases htail with
  | idle hphase =>
    rw [release, if_pos (.inr hphase)]
    exact hphase
  | capturing hphase hlayer hnode =>
    obtain ⟨t', w', calls, heq, hrest, -⟩ :=
      release_traced h w (by rw [hphase]; decide) hnode hlayer
    rw [heq]
    exact congrArg Prod.fst hrest

omit [Scalar R] in
/-- The preview is taken down, if there is a gesture. -/
theorem withoutPreview_traced (h : Host R σ) (t : Tool R) (w : σ × List (Exchange R)) :
    ∃ region w', withoutPreview h.traced t w = ({ t with previewRegion := region }, w') ∧
      region = (if t.phase = .idle then t.previewRegion else none) ∧
      w'.2 = w.2 ++ if t.phase = .idle then []
        else [⟨.clearPreview, ()⟩, ⟨.requestRedraw t.previewRegion, ()⟩] := by
  rw [withoutPreview]
  split
  · exact ⟨t.previewRegion, w, rfl, rfl, (List.append_nil _).symm⟩
  · exact ⟨none, _, rfl, rfl, List.append_assoc w.2 [_] [_]⟩

omit [Scalar R] in
/-- A gesture that has no path yet is abandoned: its timer is stopped, its preview taken down, and
the area that the preview covered repainted. -/
theorem cancel_traced (h : Host R σ) {t : Tool R} (w : σ × List (Exchange R))
    (hnode : t.node = none) : ∃ t' w', cancel h.traced t w = (t', w') ∧
      t'.control = (.idle, none, none, none, false) ∧
      t'.drawing = (t.capture.reset, if t.phase = .idle then t.previewRegion else none) ∧
      w'.2 = w.2 ++ (stop t.timer ++ if t.phase = .idle then []
        else [⟨.clearPreview, ()⟩, ⟨.requestRedraw t.previewRegion, ()⟩]) := by
  obtain ⟨w₁, htimer, hw₁⟩ := withoutTimer_traced h t w
  have hkept : withoutNode h.traced { t with timer := none } w₁ =
      ({ t with timer := none }, w₁) := by
    rw [withoutNode, hnode]
  obtain ⟨region, w', hpreview, hregion, hw'⟩ :=
    withoutPreview_traced h { t with timer := none } w₁
  simp only [cancel, htimer, hkept, hpreview]
  refine ⟨_, w', rfl, ?_, ?_, by rw [hw', hw₁, List.append_assoc]⟩
  · simp only [control, hnode]
  · simp only [drawing, hregion]

omit [Scalar R] in
theorem Follows.cancel (hf : t.Follows w.2) :
    (cancel h.traced t w).1.Follows (cancel h.traced t w).2.2 := by
  obtain ⟨-, tail, -, -, htail⟩ := id hf
  obtain ⟨t', w', heq, ht', -, hw'⟩ := cancel_traced h w htail.node_eq
  have hlayer : t'.layer = none := congrArg (fun control => control.2.1) ht'
  rw [heq, hw']
  by_cases hphase : t.phase = .idle
  · rw [if_pos hphase, (htail.of_idle hphase).2.2.1]
    exact hf.opened (fun htail => (htail.of_idle hphase).1) (.of_control (by rw [ht', hlayer]))
  · rw [if_neg hphase]
    exact hf.ended hphase (fun _ => .cancelled _ _) (by rw [ht', hlayer])

/-! ## Whole runs -/

theorem Follows.press (hf : t.Follows w.2) (key : Key) :
    (press h.traced t w key).tool.Follows (press h.traced t w key).world.2 := by
  cases key with
  | up | down | left | right => exact hf.congr rfl
  | escape => exact hf.cancel
  | other code => exact hf

theorem Follows.handle (hf : t.Follows w.2) (e : Event R) :
    (handle h.traced t w e).tool.Follows (handle h.traced t w e).world.2 := by
  cases e with
  | press point time button =>
    rw [Tool.handle]
    split
    · exact hf.begin point time
    · exact hf
  | move point time buttons => exact hf.move point time buttons
  | release point time button => exact hf.release button
  | key key => exact hf.press key

end Tool

variable [DecimalScalar R] {h : Host R σ}

namespace Tool

/-- One input continues the calls. -/
theorem Follows.step {x : Tool R × σ × List (Exchange R)} (hf : x.1.Follows x.2.2)
    (input : Input R σ) : (step h x input).1.Follows (step h x input).2.2 := by
  cases input with
  | event e => exact hf.handle e
  | tick => exact hf.tick
  | setSetting key value =>
    rw [Tool.step]
    split
    next t' hset => exact hf.congr (control_setSetting hset)
    next => exact hf
  | cancel => exact hf.cancel
  | elapse f => exact hf

/-- Inputs continue the calls. -/
theorem Follows.run {x : Tool R × σ × List (Exchange R)} (hf : x.1.Follows x.2.2)
    (inputs : List (Input R σ)) : (run h inputs x).1.Follows (run h inputs x).2.2 :=
  List.foldlRecOn inputs (Tool.step h) (motive := fun x => x.1.Follows x.2.2) hf
    fun _ hf input _ => hf.step input

theorem follows_ofSettings (settings : Settings R) : (ofSettings settings).Follows [] :=
  ⟨[], [], rfl, List.forall_mem_nil _, .idle rfl rfl rfl rfl⟩

omit [DecimalScalar R] in
/-- Calls that are whole blocks and an open gesture remove no node. -/
theorem Follows.keeps {t : Tool R} {calls : List (Exchange R)} (hf : t.Follows calls) :
    Keeps calls := by
  obtain ⟨blocks, tail, rfl, hblocks, htail⟩ := hf
  refine keeps_append.2 ⟨fun x hmem => ?_, ?_⟩
  · obtain ⟨block, hblock, hx⟩ := List.mem_flatten.1 hmem
    exact (hblocks block hblock).keeps x hx
  · cases htail with
    | idle => exact keeps_nil
    | capturing _ _ _ hopen => exact hopen.keeps

/-- After any inputs, a tool that was unused has asked for whole blocks and for what the gesture
that it is in asks for.  It is at rest or capturing, and at rest it has no timer.  It never removed
a node.

At rest a press of button 1 asks for a layer, and begins a gesture or is refused.  A release of
button 1 and a cancellation bring the tool to rest. -/
theorem run_grammatical (h : Host R σ) (settings : Settings R) (inputs : List (Input R σ))
    (w : σ) :
    let outcome := run h inputs (ofSettings settings, w, [])
    (∃ (blocks : List (List (Exchange R))) (tail : List (Exchange R)),
      outcome.2.2 = blocks.flatten ++ tail ∧ (∀ block ∈ blocks, Block block) ∧
      outcome.1.Stands tail) ∧
    (∀ x ∈ outcome.2.2, ∀ node, x.call ≠ .removeNode node) ∧
    (outcome.1.phase = .idle → ∀ point time, ∃ calls,
      (step h outcome (.event (.press point time 1))).2.2 = outcome.2.2 ++ calls ∧
      (Refused calls ∨ ∃ layer timer, Begun layer timer calls)) ∧
    (∀ point time, (step h outcome (.event (.release point time 1))).1.phase = .idle) ∧
    (step h outcome .cancel).1.phase = .idle := by
  intro outcome
  have hf : outcome.1.Follows outcome.2.2 :=
    Follows.run (x := (ofSettings settings, w, [])) (follows_ofSettings settings) inputs
  obtain ⟨-, tail, -, -, htail⟩ := id hf
  refine ⟨hf, hf.keeps, fun hidle point time => ?_, fun point time => ?_, rfl⟩
  · obtain ⟨-, -, hnone, -⟩ := htail.of_idle hidle
    obtain ⟨t', w', calls, heq, hw', hcalls⟩ := begin_traced h outcome.2 hidle hnone point time
    refine ⟨calls, ?_, hcalls.imp And.right fun ⟨layer, timer, hbegun, _⟩ => ⟨layer, timer, hbegun⟩⟩
    exact (congrArg (fun r : Reaction R (σ × List (Exchange R)) => r.world.2) heq).trans hw'
  · exact htail.phase_release h outcome.2

end Tool

end Freehand
