/-!
# Aspects of a node

What may be out of date about a node of a scene, as a set of four aspects.
-/

namespace Freehand

/-- A set of aspects of a node. -/
structure Flags where
  /-- The path or its placement in the document. -/
  geometry : Bool := false
  /-- The paint, the opacity or the visibility. -/
  style : Bool := false
  /-- The bounding box. -/
  box : Bool := false
  /-- The list of children. -/
  children : Bool := false
  deriving DecidableEq, Repr, Inhabited

namespace Flags

/-- No aspect. -/
def none : Flags :=
  {}

instance : EmptyCollection Flags := ⟨none⟩

instance : Union Flags where
  union a b :=
    ⟨a.geometry || b.geometry, a.style || b.style, a.box || b.box, a.children || b.children⟩

/-- Every aspect of `b` is one of `a`. -/
def contains (a b : Flags) : Bool :=
  (!b.geometry || a.geometry) && (!b.style || a.style) && (!b.box || a.box) &&
    (!b.children || a.children)

/-- There is no aspect in the set. -/
def isEmpty (a : Flags) : Bool :=
  !a.geometry && !a.style && !a.box && !a.children

/-- What a change of shape or placement makes stale. -/
def shape : Flags :=
  { geometry := true, box := true }

/-- What a change of paint makes stale. -/
def paint : Flags :=
  { style := true }

/-- What showing or hiding makes stale. -/
def visibility : Flags :=
  { style := true, box := true }

/-- What a change of the children makes stale. -/
def membership : Flags :=
  { box := true, children := true }

/-- What is stale about a new node. -/
def created : Flags :=
  { geometry := true, style := true, box := true }

/-- The set as a mask with one bit for each aspect. -/
def toNat (a : Flags) : Nat :=
  a.geometry.toNat + 2 * a.style.toNat + 4 * a.box.toNat + 8 * a.children.toNat

/-- The set of a mask with one bit for each aspect; other bits mean nothing. -/
def ofNat (n : Nat) : Flags :=
  ⟨n.testBit 0, n.testBit 1, n.testBit 2, n.testBit 3⟩

end Flags

end Freehand
