import Freehand.Scene.Edit

/-!
# The update pass

A pass recomputes the placements, opacities and boxes of the stale nodes, from the root down and
back up.

* A node hands its placement and its opacity down.  Where one of them changed, the aspects that
  depend on it count as stale for all children.
* A node without stale aspects is passed over with its whole subtree.
* The box of a group holds the boxes of its shown children.  The box of a clone is the box of its
  source's content, placed anew.  A gradient has no box.
* The old and the new box of a recomputed node are damaged.  Groups are damaged for themselves only
  when their style is stale.

Content is measured through clones and groups down to a fixed number of levels, which also ends the
measuring of clones that show each other.
-/

namespace Freehand.Scene

variable {R : Type} [Scalar R]

/-! ## Boxes -/

/-- The number of levels of content that are measured. -/
def contentLevels : Nat :=
  33

/-- The box of a node's content in the coordinates of the node, measured over some levels. -/
def contentBox (s : Scene R) : (levels : Nat) → NodeId → Option (Rect R)
  | 0, _ => none
  | levels + 1, id =>
    match s.node? id with
    | none => none
    | some n =>
      match n.kind with
      | .path elements => elements.bounds
      | .group _ =>
        n.children.foldl (fun box c =>
          Rect.join box <|
            match s.node? c with
            | some child =>
              if child.hidden then none
              else (s.contentBox levels c).map child.transform.mapRect
            | none => none) none
      | .clone none => none
      | .clone (some source) =>
        match s.node? source with
        | some n => (s.contentBox levels source).map n.transform.mapRect
        | none => none
      | .gradient _ => none

/-- The box of a group of nodes in the document, as of their last update. -/
def shownBox (s : Scene R) (children : List NodeId) : Option (Rect R) :=
  ((children.filterMap s.node?).filter fun n => !n.hidden).foldl
    (fun box n => Rect.join box n.box) none

/-- The box of a node in the document, from its placement and the boxes of its children. -/
def computeBox (s : Scene R) (id : NodeId) : Option (Rect R) :=
  match s.node? id with
  | none => none
  | some n =>
    match n.kind with
    | .group _ => s.shownBox n.children
    | .path elements => (Path.transformed n.world elements).bounds
    | .clone none => none
    | .clone (some source) =>
      match s.node? source with
      | some n' => (s.contentBox contentLevels source).map (n.world * n'.transform).mapRect
      | none => none
    | .gradient _ => none

/-! ## The pass -/

/-- What a node hands down to its children. -/
structure Inherited (R : Type) where
  /-- The placement in the document. -/
  world : Affine R
  /-- The opacity in the document. -/
  opacity : R
  /-- The aspects that are stale because something handed down changed. -/
  flags : Flags

/-- What the root inherits. -/
def Inherited.atRoot : Inherited R :=
  ⟨.identity, 1, ∅⟩

/-- What the children of a node inherit. -/
def Inherited.below (i : Inherited R) (n : Node R) : Inherited R :=
  let world := i.world * n.transform
  let opacity := i.opacity * n.style.opacity
  let moved : Flags := if world != n.world then .shape else ∅
  let faded : Flags := if opacity != n.opacity then .paint else ∅
  ⟨world, opacity, moved ∪ faded⟩

/-- Recompute the box of a node after its children, and damage what it covered and covers. -/
def settleBox (s : Scene R) (id : NodeId) (flags : Flags) : Scene R :=
  let box := s.computeBox id
  match s.node? id with
  | none => s
  | some n =>
    let s := s.modify id fun n => { n with box, changed := n.changed ∪ flags }
    if !n.kind.isGroup || flags.style then s.addDamage (Rect.join n.box box) else s

/-- Recompute a subtree of at most `n` levels. -/
def updateSubtree : (n : Nat) → Inherited R → NodeId → Scene R → Scene R
  | 0, _, _, s => s
  | n + 1, inherited, id, s =>
    match s.node? id with
    | none => s
    | some node =>
      let flags := node.stale ∪ inherited.flags
      if flags.isEmpty then
        s
      else
        let below := inherited.below node
        let s := s.modify id fun n =>
          { n with stale := ∅, world := below.world, opacity := below.opacity }
        let s := node.children.foldl (fun s c => updateSubtree n below c s) s
        s.settleBox id flags

/-- Recompute all stale nodes. -/
def updatePass (s : Scene R) : Scene R :=
  updateSubtree s.nodes.slots.size .atRoot s.root s

omit [Scalar R] in
/-- The root is dirty, as is every node with something to recompute below it. -/
def isDirty (s : Scene R) : Bool :=
  (s.node? s.root).any Node.isDirty

end Freehand.Scene
