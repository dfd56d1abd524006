import Freehand.Proofs.Capture.Shape
import Freehand.Proofs.Document.Operations
import Freehand.Proofs.Scene.Growth

/-!
# Strokes in documents

A tool writes a stroke by two calls.  The first one plants a path and sets its style and its
placement, the second one sets its elements.  A document that answers the first one grows by one
stroke, as the second one cannot fail then, and any other document stays as it is
(`Document.draws_write`).
-/

namespace Freehand

open Scene

variable {R ω : Type}

/-! ## Scenes with strokes -/

/-- The node is the path of a stroke. -/
def Kind.IsStroke (mode : StrokeMode) (k : Kind R) : Prop :=
  ∃ elements, k = .path elements ∧ elements.IsStroke mode

namespace Scene

variable {s t s' s'' : Scene R} {host id : NodeId} {new new' : List NodeId} {mode : StrokeMode}
  {n : Node R}

/-- What drawing does to a scene.  As long as words of 32 bits name the slots, it appends the paths
of strokes to one node. -/
structure Draws (mode : StrokeMode) (host : NodeId) (new : List NodeId) (s s' : Scene R) :
    Prop where
  /-- Slots are never lost. -/
  slots : s.nodes.slots.size ≤ s'.nodes.slots.size
  valid : s'.nodes.Fits → s.nodes.Valid → s'.nodes.Valid
  appends : s'.nodes.Fits → s.nodes.Valid → Appends (Kind.IsStroke mode) host new s s'

namespace Draws

theorem of_kept (h : Kept s s') : Draws mode host [] s s' where
  slots := Nat.le_of_eq h.stays.slots.symm
  valid _ := h.stays.valid
  appends _ _ := .of_agree h.agree

theorem trans (h : Draws mode host new s s') (h' : Draws mode host new' s' s'') :
    Draws mode host (new ++ new') s s'' where
  slots := Nat.le_trans h.slots h'.slots
  valid hfits hvalid := h'.valid hfits (h.valid (Nat.le_trans h'.slots hfits) hvalid)
  appends hfits hvalid :=
    have hfits' : s'.nodes.Fits := Nat.le_trans h'.slots hfits
    (h.appends hfits' hvalid).trans (h'.appends hfits (h.valid hfits' hvalid))

end Draws

/-- The style of a node that references nothing is replaced by one that references nothing. -/
theorem setStyle_eq (hn : s.node? id = some n) (hreferences : n.references = []) {style : Style R}
    (hfill : style.fill.server? = none) (hstroke : style.stroke.server? = none) :
    s.setStyle id style = .ok ((s.modify id fun n => { n with style }).touch id .paint) := by
  have htarget : ∀ r, s.target? id r = none := by
    intro r
    rw [target?, hn, Option.bind_some, hreferences]
    rfl
  have hsame : ∀ r, s.setReference id r none = s := by
    intro r
    rw [setReference.eq_def, if_pos (htarget r)]
  simp only [setStyle, checkPaint, hfill, hstroke, hsame, contains_of_node? hn, if_true]
  rfl

/-- The scene after a style was set of a node, and then a placement. -/
def dressed (s : Scene R) (id : NodeId) (style : Style R) (m : Affine R) : Scene R :=
  (((s.modify id fun n => { n with style }).touch id .paint).modify id fun n =>
    { n with transform := m }).touch id .shape

/-- Neither is refused of a node that references nothing. -/
theorem exists_dressed (hn : s.node? id = some n) (hreferences : n.references = [])
    {style : Style R} (hfill : style.fill.server? = none) (hstroke : style.stroke.server? = none)
    (m : Affine R) :
    ∃ t, s.setStyle id style = .ok t ∧ t.setTransform id m = .ok (s.dressed id style m) := by
  have hstyled : (s.modify id fun n => { n with style }).node? id = some { n with style } := by
    rw [node?_modify_self, hn]
    rfl
  have hagree : Agree Node.references (s.modify id fun n => { n with style })
      ((s.modify id fun n => { n with style }).touch id .paint) :=
    agree_touch (fun _ _ => rfl) _ id .paint
  obtain ⟨k, hk, -⟩ := hagree.node? hstyled
  refine ⟨_, setStyle_eq hn hreferences hfill hstroke, ?_⟩
  rw [setTransform, if_pos (contains_of_node? hk)]
  rfl

/-- The elements of a new path are set. -/
theorem Appends.setPath {old : Path R} (h : Appends (· = .path old) host [id] s s')
    (elements : Path R) :
    ∃ s'', s'.setPath id elements = .ok s'' ∧ Appends (· = .path elements) host [id] s s'' := by
  obtain ⟨-, n, hn⟩ := (h.mem_iff id).1 List.mem_cons_self
  obtain ⟨-, hkind⟩ := h.holds List.mem_cons_self hn
  have hpath : n.kind.isPath = true := by
    rw [hkind]
    rfl
  refine ⟨_, ?_, h.store (f := fun n => { n with kind := .path elements }) .shape
    fun n _ _ => ⟨rfl, rfl⟩⟩
  rw [Scene.setPath, hn]
  exact if_pos hpath

/-- A style that references nothing is set of a new node, and then a transform. -/
theorem Appends.dressed {kind : Kind R} {style : Style R} {m : Affine R}
    (h : Appends (· = kind) host [id] s t) (hn : t.node? id = some n)
    (hreferences : n.references = []) (hfill : style.fill.server? = none)
    (hstroke : style.stroke.server? = none) (hstyle : t.setStyle id style = .ok s')
    (htransform : s'.setTransform id m = .ok s'') : Appends (· = kind) host [id] s s'' := by
  rw [setStyle_eq hn hreferences hfill hstroke] at hstyle
  cases hstyle
  have hstyled : Appends (· = kind) host [id] s
      ((t.modify id fun n => { n with style }).touch id .paint) :=
    h.store .paint fun _ _ hkind => ⟨rfl, hkind⟩
  rw [setTransform] at htransform
  split at htransform
  · cases htransform
    exact hstyled.store .shape fun _ _ hkind => ⟨rfl, hkind⟩
  · cases htransform

variable [Scalar R]

theorem evolves_addPath {style : Style R} {m : Affine R}
    (h : Document.addPath s host style m = .ok (id, s')) : Evolves s s' := by
  obtain ⟨n, t, hn, hgroup, -, hstyle, htransform⟩ := Document.exists_of_addPath h
  exact ((evolves_insertChild hn hgroup rfl).trans (revised_setStyle hstyle).revised.evolves).trans
    (revised_setTransform htransform).revised.evolves

/-- A path without elements is added to a group, and then its style and its placement are set. -/
theorem addPath_eq {style : Style R} (hvalid : s.nodes.Valid)
    (hfits : (s.plant host (.path [])).nodes.Fits) (hn : s.node? host = some n)
    (hgroup : n.kind.isGroup = true) (hfill : style.fill.server? = none)
    (hstroke : style.stroke.server? = none) (m : Affine R) :
    Document.addPath s host style m = .ok (s.nextId host (.path []),
      (s.insertChild host (.path [])).2.dressed (s.nextId host (.path [])) style m) := by
  obtain ⟨k, hk, hreferences⟩ := references_insertChild hvalid hfits hn
  obtain ⟨t, hstyle, htransform⟩ := exists_dressed hk hreferences hfill hstroke m
  rw [Document.addPath, addChild_path hn hgroup]
  show Except.bind (Scene.setStyle _ _ _) _ = _
  rw [hstyle]
  show Except.bind (Scene.setTransform _ _ _) _ = _
  rw [htransform]
  rfl

/-- A path without elements is appended to its host. -/
theorem draws_addPath {style : Style R} {m : Affine R} (hfill : style.fill.server? = none)
    (hstroke : style.stroke.server? = none)
    (h : Document.addPath s host style m = .ok (id, s')) (hfits : s'.nodes.Fits)
    (hvalid : s.nodes.Valid) :
    s'.nodes.Valid ∧ Appends (· = .path []) host [id] s s' := by
  obtain ⟨n, t, hn, -, rfl, hstyle, htransform⟩ := Document.exists_of_addPath h
  have hstays := (revised_setStyle hstyle).revised.stays.trans
    (revised_setTransform htransform).revised.stays
  have hplant := (stays_insertChild s host (.path [])).fits (hstays.fits hfits)
  refine ⟨hstays.valid (valid_insertChild hvalid hplant), ?_⟩
  obtain ⟨k, hk, hreferences⟩ := references_insertChild hvalid hplant hn
  exact (appends_insertChild hvalid hplant hn).dressed hk hreferences hfill hstroke hstyle
    htransform

end Scene

/-! ## Writing a stroke -/

namespace Document

variable [Scalar R] {d d' : Document R ω} {layer : LayerHandle} {node : NodeHandle}
  {mode : StrokeMode} {elements : Path R}

/-- The document after a stroke was written into a layer. -/
def write (d : Document R ω) (layer : LayerHandle) (mode : StrokeMode) (elements : Path R) :
    Document R ω :=
  match d.createPathNode layer mode with
  | .ok (node, d) => d.afterwards (d.setPathData node elements)
  | .error _ => d

omit [Scalar R] in
/-- Elements that start with a move, or none, are set as an edit of the scene. -/
theorem setPathData_eq {s : Scene R}
    (hstart : elements = [] ∨ ∃ p rest, elements = .moveTo p :: rest)
    (hset : d.scene.setPath node.id elements = .ok s) :
    d.setPathData node elements = .ok (d.withScene s) := by
  have hlive : d.scene.contains node.id = true := by
    by_contra hgone
    rw [Scene.setPath, node?_eq_none hgone] at hset
    cases hset
  have hnode : d.resolveNode node = .ok node.id := if_pos hlive
  rw [setPathData, hnode]
  rcases hstart with rfl | ⟨p, rest, rfl⟩
  all_goals
    show Except.bind ((d.scene.setPath node.id _).mapError DocumentError.ofScene) _ = _
    rw [hset]
    rfl

omit [Scalar R] in
/-- A path that is set keeps the slots, whether or not it is accepted. -/
theorem stays_afterwards (d : Document R ω) (node : NodeHandle) (elements : Path R) :
    Stays d.scene (d.afterwards (d.setPathData node elements)).scene := by
  cases hset : d.setPathData node elements with
  | error e => exact .refl d.scene
  | ok d' =>
    obtain ⟨s, hs, rfl⟩ := exists_of_setPathData hset
    exact (revised_setPath hs).revised.stays

theorem write_eq (hcreate : d.createPathNode layer mode = .ok (node, d')) (elements : Path R) :
    d.write layer mode elements = d'.afterwards (d'.setPathData node elements) := by
  rw [write, hcreate]

theorem servers_styleOf (mode : StrokeMode) :
    (styleOf mode : Style R).fill.server? = none ∧
      (styleOf mode : Style R).stroke.server? = none := by
  cases mode <;> exact ⟨rfl, rfl⟩

/-- Writing a stroke draws one path into the layer, or none if the layer refuses it. -/
theorem draws_write (d : Document R ω) (layer : LayerHandle) (h : elements.IsStroke mode) :
    ∃ new, new.length ≤ 1 ∧
      Draws mode layer.id new d.scene (d.write layer mode elements).scene := by
  cases hcreate : d.createPathNode layer mode with
  | error e =>
    refine ⟨[], Nat.zero_le 1, ?_⟩
    rw [write, hcreate]
    exact .of_kept (cumulative_kept.refl d.scene)
  | ok created =>
    obtain ⟨node, d'⟩ := created
    obtain ⟨m, id, s, hadd, rfl, rfl⟩ := exists_of_createPathNode hcreate
    obtain ⟨hfill, hstroke⟩ := servers_styleOf (R := R) mode
    have hstays := stays_afterwards (d.withScene s) id.toNode elements
    rw [write_eq hcreate]
    refine ⟨[id], Nat.le_refl 1, ?_, fun hfits hvalid => ?_, fun hfits hvalid => ?_⟩
    · rw [hstays.slots]
      exact (evolves_addPath hadd).slots
    · exact hstays.valid (draws_addPath hfill hstroke hadd (hstays.fits hfits) hvalid).1
    · obtain ⟨-, hempty⟩ := draws_addPath hfill hstroke hadd (hstays.fits hfits) hvalid
      obtain ⟨s', hset, happends⟩ := hempty.setPath elements
      have hnode : (d.withScene s).scene.setPath id.toNode.id elements = .ok s' := by
        rw [NodeHandle.id, NodeId.toNode, NodeId.ofBits_toBits]
        exact hset
      rw [setPathData_eq (.inr h.start) hnode]
      refine ⟨happends.kept, happends.mem_iff, happends.nodup, happends.hosted,
        fun j n hj hn => ?_⟩
      obtain ⟨hparent, hkind⟩ := happends.holds hj hn
      exact ⟨hparent, elements, hkind, h⟩

/-- Nothing but the scene changes. -/
theorem exists_write (d : Document R ω) (layer : LayerHandle) (mode : StrokeMode)
    (elements : Path R) : ∃ s, d.write layer mode elements = d.withScene s := by
  cases hcreate : d.createPathNode layer mode with
  | error e =>
    rw [write, hcreate]
    exact ⟨d.scene, rfl⟩
  | ok created =>
    obtain ⟨node, d'⟩ := created
    obtain ⟨m, id, s, -, -, rfl⟩ := exists_of_createPathNode hcreate
    rw [write_eq hcreate]
    cases hset : (d.withScene s).setPathData node elements with
    | error e => exact ⟨s, rfl⟩
    | ok d' =>
      obtain ⟨s', -, rfl⟩ := exists_of_setPathData hset
      exact ⟨s', rfl⟩

end Document

end Freehand
