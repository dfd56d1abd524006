import Freehand.Proofs.Document.Refusal
import Freehand.Proofs.Replay.Strokes
import Freehand.Proofs.Scene.Composition

/-!
# Strokes stay where they are drawn

A new path carries the inverse placement of its layer, as composed when the path is created.  In
exact arithmetic it is then placed by the identity, and an update that settles leaves it so, with
the box of its elements as they were given (`Document.stroke_stays`).

What a pass keeps of placements may be out of date when the path is created, but neither creating
the path nor the update looks at that: the first composes what is set of the layer and of the nodes
above it, and the second ends when nothing is out of date.
-/

namespace Freehand

open Scene

variable {R ω : Type} [Scalar R]

/-! ## New paths -/

namespace Scene

variable {s s' t : Scene R} {host id : NodeId} {n : Node R} {m : Affine R}

omit [Scalar R] in
theorem transform_setTransform (h : t.setTransform id m = .ok s') (hn : s'.node? id = some n) :
    n.transform = m := by
  rw [setTransform] at h
  split at h
  next hlive =>
    cases h
    obtain ⟨k, hk⟩ := contains_iff.1 hlive
    have hset : (t.modify id fun n => { n with transform := m }).node? id =
        some { k with transform := m } := by
      rw [node?_modify_self, hk, Option.map_some]
    have hagree : Agree Node.transform (t.modify id fun n => { n with transform := m }) _ :=
      agree_touch (fun _ _ => rfl) _ id .shape
    exact hagree.part_eq hset hn
  next => cases h

theorem fits_addPath (hroom : s.nodes.slots.size < UInt32.size) {style : Style R}
    (h : Document.addPath s host style m = .ok (id, s')) : s'.nodes.Fits := by
  obtain ⟨n, t, -, -, -, hstyle, htransform⟩ := Document.exists_of_addPath h
  have hstays := (stays_insertChild s host (.path [])).trans
    ((revised_setStyle hstyle).revised.stays.trans (revised_setTransform htransform).revised.stays)
  exact hstays.keeps_fits (fits_plant hroom host (.path []))

/-- A path that carries the inverse placement of its host is placed by the identity. -/
theorem composedTransform_addPath (hlaw : Scalar.Unrounded R) (hs : s.Sound) {style : Style R}
    (hfill : style.fill.server? = none) (hstroke : style.stroke.server? = none)
    (hm : s.composedTransform host = .ok m) (hdet : m.determinant ≠ 0)
    (h : Document.addPath s host style m.inverse = .ok (id, s')) (hfits : s'.nodes.Fits) :
    s'.composedTransform id = .ok .identity := by
  obtain ⟨k, t, hk, -, -, -, htransform⟩ := Document.exists_of_addPath h
  obtain ⟨-, happends⟩ := draws_addPath hfill hstroke h hfits hs.valid
  have hs' := (evolves_addPath h).sound hfits hs
  obtain ⟨-, n, hn⟩ := (happends.mem_iff id).1 List.mem_cons_self
  obtain ⟨hparent, -⟩ := happends.holds List.mem_cons_self hn
  obtain ⟨k', hk', -⟩ := happends.kept hk
  have hhost := Unmoved.composedTransform_eq hlaw hs.tree hs'.tree (happends.unmoved host) hk hk'
  rw [hs'.tree.grounded.composedTransform_of_parent hlaw hn hparent (hhost.trans hm),
    transform_setTransform htransform hn, Affine.mul_inverse m hlaw hdet]

end Scene

namespace Document

variable {d d' : Document R ω} {layer : LayerHandle} {node : NodeHandle} {mode : StrokeMode}
  {m : Affine R} {elements : Path R} {c : Conduct R ω} {depth : Nat} {n n' : Node R}

/-- A layer that is not locked and whose placement can be undone takes a new path. -/
theorem exists_createPathNode (hs : d.scene.Sound)
    (hroom : d.scene.nodes.slots.size < UInt32.size) (hlayer : d.isLayer layer.id = true)
    (hlocked : d.scene.isEffectivelyLocked layer.id = false)
    (hm : d.scene.composedTransform layer.id = .ok m) (hdet : (m.determinant == 0) = false)
    (hfinite : Scalar.isFinite m.determinant = true) (mode : StrokeMode) :
    ∃ id s, addPath d.scene layer.id (styleOf mode) m.inverse = .ok (id, s) ∧
      d.createPathNode layer mode = .ok (id.toNode, d.withScene s) := by
  have hresolve : d.resolveLayer layer = .ok layer.id := if_pos hlayer
  obtain ⟨n, hn, hgroup⟩ := isGroup_of_resolveLayer hresolve
  obtain ⟨hfill, hstroke⟩ := servers_styleOf (R := R) mode
  have hadd := addPath_eq hs.valid (fits_plant hroom layer.id (.path [])) hn hgroup hfill hstroke
    m.inverse
  refine ⟨_, _, hadd, ?_⟩
  rw [createPathNode, hresolve]
  show (if d.scene.isEffectivelyLocked layer.id = true then _ else _) = _
  rw [hlocked, hm]
  show (if (m.determinant == 0 || !Scalar.isFinite m.determinant) = true then _ else _) = _
  rw [hdet, hfinite, hadd]
  rfl

/-- In exact arithmetic, it is placed by the identity. -/
theorem exists_placed (hlaw : Scalar.Unrounded R) (hs : d.scene.Sound)
    (hroom : d.scene.nodes.slots.size < UInt32.size) (hlayer : d.isLayer layer.id = true)
    (hlocked : d.scene.isEffectivelyLocked layer.id = false)
    (hm : d.scene.composedTransform layer.id = .ok m) (hdet : m.determinant ≠ 0)
    (mode : StrokeMode) :
    ∃ node d₁ n, d.createPathNode layer mode = .ok (node, d₁) ∧ d₁.scene.nodes.Fits ∧
      d₁.scene.composedTransform node.id = .ok .identity ∧
      d₁.scene.node? node.id = some n ∧ n.kind.isPath = true := by
  have hdet' : (m.determinant == 0) = false := by
    rw [← Bool.not_eq_true, hlaw.beq_iff_eq]
    exact hdet
  obtain ⟨id, s, hadd, hcreate⟩ := exists_createPathNode hs hroom hlayer hlocked hm hdet'
    (hlaw.finite _) mode
  obtain ⟨hfill, hstroke⟩ := servers_styleOf (R := R) mode
  have hfits := fits_addPath hroom hadd
  obtain ⟨-, happends⟩ := draws_addPath hfill hstroke hadd hfits hs.valid
  obtain ⟨-, n, hn⟩ := (happends.mem_iff id).1 List.mem_cons_self
  obtain ⟨-, hkind⟩ := happends.holds List.mem_cons_self hn
  have hid : id.toNode.id = id := by
    rw [NodeHandle.id, NodeId.toNode, NodeId.ofBits_toBits]
  refine ⟨id.toNode, d.withScene s, n, hcreate, hfits, ?_, ?_, ?_⟩
  · rw [hid]
    exact composedTransform_addPath hlaw hs hfill hstroke hm hdet hadd hfits
  · rw [hid]
    exact hn
  · rw [hkind]
    rfl

/-- The elements of a path that is placed by the identity are set. -/
theorem exists_setPathData (hlaw : Scalar.Unrounded R) (hd : d.ReachedBy c depth)
    (hfits : d.scene.nodes.Fits) (hn : d.scene.node? node.id = some n)
    (hpath : n.kind.isPath = true) (hplaced : d.scene.composedTransform node.id = .ok .identity)
    (hstart : elements = [] ∨ ∃ p rest, elements = .moveTo p :: rest) :
    ∃ d' n', d.setPathData node elements = .ok d' ∧ d'.scene.node? node.id = some n' ∧
      n'.kind = .path elements ∧ d'.ReachedBy c depth ∧ d'.scene.nodes.Fits ∧
      d'.scene.composedTransform node.id = .ok .identity := by
  obtain ⟨s, n', hset, hn', hkind, hunmoved⟩ := exists_setPath hn hpath elements
  have hdata := setPathData_eq hstart hset
  have hd' := hd.setPathData hdata
  have hfits' : s.nodes.Fits := (revised_setPath hset).revised.stays.keeps_fits hfits
  refine ⟨d.withScene s, n', hdata, hn', hkind, hd', hfits', ?_⟩
  rw [← hplaced]
  exact Unmoved.composedTransform_eq hlaw (hd.scene.sound hfits).tree
    (hd'.scene.sound hfits').tree (hunmoved node.id) hn hn'

/-- An update that settles finds a path where it was placed. -/
theorem placed_settle (hlaw : Scalar.Unrounded R) (hd : d.ReachedBy c depth)
    (hfits : d.scene.nodes.Fits) (hn : d.scene.node? node.id = some n)
    (hplaced : d.scene.composedTransform node.id = .ok .identity)
    (between : List (Operation R ω)) {st : Stage R ω}
    (hsettle : Stage.settle (c.listener depth)
      (between.foldl (perform (c.listener depth)) d).stage = (.ok (), st))
    (hfits' : st.scene.nodes.Fits) (hunmoved : d.scene.Unmoved st.scene node.id)
    (hn' : st.scene.node? node.id = some n') :
    n'.world = .identity ∧ ∀ shown, n'.kind = .path shown → n'.box = Path.bounds shown := by
  have hreach : st.scene.Reachable := by
    have h := (hd.foldl between).scene_settle
    rwa [hsettle] at h
  have hclean : st.scene.isDirty = false := by
    have h := Stage.not_isDirty_settle (congrArg Prod.fst hsettle)
    rwa [hsettle] at h
  have hworld := Unmoved.world_eq hlaw hunmoved (hd.scene.sound hfits) hn hplaced hreach hfits'
    hclean hn'
  exact ⟨hworld, fun shown => hreach.box_of_identity hlaw hfits' hclean hn' hworld⟩

/-- Observers that change no node leave a path where it is while an update runs, with its
elements. -/
theorem unmoved_settle (hc : c.Reserved) {st : Stage R ω} {answer : Except UpdateError Unit}
    (hsettle : Stage.settle (c.listener depth) d.stage = (answer, st))
    (hfits : d.scene.nodes.Fits) (hn : d.scene.node? node.id = some n) :
    st.scene.nodes.Fits ∧ d.scene.Unmoved st.scene node.id ∧
      ∃ n', st.scene.node? node.id = some n' ∧ n'.kind = n.kind := by
  have hkept : Kept d.scene st.scene := by
    have h := cumulative_kept.settle (hc.listener depth).kept_pass d.stage
    rwa [hsettle] at h
  obtain ⟨n', hn', heq⟩ := hkept.agree.node? hn
  exact ⟨hkept.stays.keeps_fits hfits, hkept.unmoved node.id, n', hn',
    congrArg (fun fixed => fixed.1.1) heq⟩

/-- In exact arithmetic, and as long as a slot is left, every layer that is not locked and whose
placement can be undone takes a new path, which is placed by the identity.  After its elements are
set, an update that settles finds it there with the box of its elements, if observers change no
node.

Whatever else is done before the update or by observers, it is found there with the box of what it
then shows, unless it was moved meanwhile, or something above it was.  An identifier that was handed
out again, after 2³² nodes with its slot were removed, may name a node below another one; that
counts as moved. -/
theorem stroke_stays (hlaw : Scalar.Unrounded R) (hd : d.ReachedBy c depth)
    (hroom : d.scene.nodes.slots.size < UInt32.size)
    (hlayer : d.isLayer layer.id = true)
    (hlocked : d.scene.isEffectivelyLocked layer.id = false)
    (hm : d.scene.composedTransform layer.id = .ok m) (hdet : m.determinant ≠ 0)
    (mode : StrokeMode) :
    ∃ node d₁, d.createPathNode layer mode = .ok (node, d₁) ∧
      d₁.scene.composedTransform node.id = .ok .identity ∧
      ∀ elements : Path R, (elements = [] ∨ ∃ p rest, elements = .moveTo p :: rest) →
        ∃ d₂, d₁.setPathData node elements = .ok d₂ ∧
          (c.Reserved → ∀ st : Stage R ω,
            Stage.settle (c.listener depth) d₂.stage = (.ok (), st) →
            ∃ n, st.scene.node? node.id = some n ∧ n.kind = .path elements ∧
              n.world = .identity ∧ n.box = Path.bounds elements) ∧
          ∀ (between : List (Operation R ω)) (st : Stage R ω),
            Stage.settle (c.listener depth)
              (between.foldl (perform (c.listener depth)) d₂).stage = (.ok (), st) →
            st.scene.nodes.Fits → d₂.scene.Unmoved st.scene node.id →
            ∀ n, st.scene.node? node.id = some n →
              n.world = .identity ∧ ∀ shown, n.kind = .path shown → n.box = Path.bounds shown := by
  obtain ⟨node, d₁, n₁, hcreate, hfits, hplaced, hn₁, hpath⟩ := exists_placed hlaw
    (hd.scene.sound (Nat.le_of_lt hroom)) hroom hlayer hlocked hm hdet mode
  refine ⟨node, d₁, hcreate, hplaced, fun elements hstart => ?_⟩
  obtain ⟨d₂, n₂, hdata, hn₂, hkind₂, hd₂, hfits₂, hplaced₂⟩ :=
    exists_setPathData hlaw (hd.createPathNode hcreate) hfits hn₁ hpath hplaced hstart
  refine ⟨d₂, hdata, fun hc st hsettle => ?_, fun between st hsettle hfits' hunmoved n hn =>
    placed_settle hlaw hd₂ hfits₂ hn₂ hplaced₂ between hsettle hfits' hunmoved hn⟩
  obtain ⟨hfits', hunmoved, n, hn, hkind⟩ := unmoved_settle hc hsettle hfits₂ hn₂
  have hkind' := hkind.trans hkind₂
  obtain ⟨hworld, hbox⟩ := placed_settle hlaw hd₂ hfits₂ hn₂ hplaced₂ [] hsettle hfits' hunmoved hn
  exact ⟨n, hn, hkind', hworld, hbox elements hkind'⟩

end Document

/-! ## A slanted layer -/

namespace Document

/-- A layer that is slanted, in a group that is turned and twice as large. -/
def slanted : Document Rat Unit :=
  [.command (.addChild ⟨0, 0⟩ (.group false)),
    .command (.edit (.setTransform ⟨2, 0⟩ ⟨0, 2, -2, 0, 5, 7⟩)),
    .command (.addChild ⟨2, 0⟩ (.group true)),
    .command (.edit (.setTransform ⟨3, 0⟩ ⟨1, 0, 1, 1, 0, 3⟩))].foldl
      (perform (Conduct.silent.listener 0)) (.new 16 ())

/-- The placement of the group and that of the layer are both undone by that of the path. -/
theorem stroke_stays_slanted :
    ∃ node d₁ d₂ st n, slanted.createPathNode ⟨3⟩ .line = .ok (node, d₁) ∧
      d₁.setPathData node [.moveTo ⟨0, 0⟩, .lineTo ⟨4, 2⟩] = .ok d₂ ∧
      Stage.settle (Conduct.silent.listener 0) d₂.stage = (.ok (), st) ∧
      st.scene.node? node.id = some n ∧ n.world = .identity ∧
      n.box = Path.bounds [.moveTo ⟨0, 0⟩, .lineTo ⟨4, 2⟩] := by
  have hreached : slanted.ReachedBy .silent 0 := ⟨16, (), _, rfl⟩
  have hreserved : (Conduct.silent : Conduct Rat Unit).Reserved :=
    ⟨fun _ _ _ _ => nofun, fun _ _ => nofun⟩
  have hplaced : (slanted.scene.composedTransform (LayerHandle.id ⟨3⟩)).toOption.any
      (fun m => m.determinant ≠ 0) = true := by decide +kernel
  obtain ⟨m, hm, hdet⟩ := Except.exists_of_any hplaced
  obtain ⟨node, d₁, hcreate, -, hdata⟩ := stroke_stays Scalar.unrounded_fractions hreached
    (by decide +kernel) (by decide +kernel) (by decide +kernel) hm (of_decide_eq_true hdet) .line
  obtain ⟨d₂, hset, hsettled, -⟩ :=
    hdata [.moveTo ⟨0, 0⟩, .lineTo ⟨4, 2⟩] (.inr ⟨_, _, rfl⟩)
  have houtcome : ((slanted.createPathNode ⟨3⟩ .line).toOption.bind fun x =>
      (x.2.setPathData x.1 [.moveTo ⟨0, 0⟩, .lineTo ⟨4, 2⟩]).toOption).any (fun d =>
        (Stage.settle (Conduct.silent.listener 0) d.stage).1.isOk) = true := by
    decide +kernel
  rw [hcreate] at houtcome
  simp only [Except.toOption, Option.bind_some, hset, Option.any_some] at houtcome
  have hsettle : Stage.settle (Conduct.silent.listener 0) d₂.stage =
      (.ok (), (Stage.settle (Conduct.silent.listener 0) d₂.stage).2) := by
    cases hanswer : (Stage.settle (Conduct.silent.listener 0) d₂.stage).1 with
    | error e =>
      rw [hanswer] at houtcome
      cases houtcome
    | ok answer => exact Prod.ext hanswer rfl
  obtain ⟨n, hn, -, hworld, hbox⟩ := hsettled hreserved _ hsettle
  exact ⟨node, d₁, d₂, _, n, hcreate, hset, hsettle, hn, hworld, hbox⟩

end Document

end Freehand
