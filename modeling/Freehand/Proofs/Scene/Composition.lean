import Freehand.Proofs.Geometry.Maps
import Freehand.Proofs.Scene.Growth
import Freehand.Proofs.Scene.Placement
import Freehand.Proofs.Scene.Settled

/-!
# Placements composed on demand

The placement of a node is known in two ways.  A pass composes it from the root down and keeps it;
on demand it is composed from the node up (`Scene.composedTransform`), whatever is stale.  In exact
arithmetic the second one composes what is set of the parent and of the node
(`Grounded.composedTransform_of_parent`), so that both agree in a scene that has settled
(`Reachable.composedTransform_eq`).

It depends on nothing but the transforms of the node and of those above it
(`Unmoved.composedTransform_eq`).
-/

namespace Freehand

variable {R : Type} [Scalar R]

/-! ## Exact arithmetic -/

namespace Scalar.Unrounded

variable (hlaw : Scalar.Unrounded R)
include hlaw

theorem eq_of_alike {a b : R} (h : Scalar.Alike a b) : a = b := by
  rcases h with h | ⟨ha, -⟩
  · exact (hlaw.beq_iff_eq a b).1 h
  · rw [(hlaw.beq_iff_eq a a).2 rfl] at ha
    cases ha

/-- Exact arithmetic is steady, as it knows nothing but numbers. -/
theorem steady : Scalar.Steady R where
  symm a b h := (hlaw.beq_iff_eq b a).2 ((hlaw.beq_iff_eq a b).1 h).symm
  trans a b c h h' := by
    rw [(hlaw.beq_iff_eq a b).1 h]
    exact h'
  add a a' b b' ha hb := by
    rw [hlaw.eq_of_alike ha, hlaw.eq_of_alike hb]
    exact .refl _
  mul a a' b b' ha hb := by
    rw [hlaw.eq_of_alike ha, hlaw.eq_of_alike hb]
    exact .refl _
  one_mul_one := by
    rw [hlaw.one_mul]
    exact .refl _
  identity_mul_identity := by
    rw [Affine.identity_mul _ hlaw]
    exact .refl _

theorem affine_eq {m n : Affine R} (h : m.Alike n) : m = n :=
  Affine.ext (hlaw.eq_of_alike h.a) (hlaw.eq_of_alike h.b) (hlaw.eq_of_alike h.c)
    (hlaw.eq_of_alike h.d) (hlaw.eq_of_alike h.e) (hlaw.eq_of_alike h.f)

end Scalar.Unrounded

namespace Scene

variable {s s' : Scene R} {id p : NodeId} {n : Node R} {m w : Affine R}

/-! ## From the node up -/

theorem foldl_transform_mul (hlaw : Scalar.Unrounded R) (ns : List (Node R)) (m w : Affine R) :
    ns.foldl (fun m a => a.transform * m) (m * w) =
      ns.foldl (fun m a => a.transform * m) m * w := by
  induction ns generalizing m with
  | nil => rfl
  | cons a ns ih => rw [List.foldl_cons, List.foldl_cons, ← Affine.mul_assoc _ _ hlaw, ih]

theorem exists_composedTransform (hn : s.node? id = some n) :
    ∃ w, s.composedTransform id = .ok w := by
  rw [composedTransform, hn]
  exact ⟨_, rfl⟩

theorem composedTransform_of_root (hn : s.node? id = some n) (hroot : n.parent = none) :
    s.composedTransform id = .ok n.transform := by
  rw [composedTransform, hn, ancestors_of_root ((parent?_of_node? hn).trans hroot)]
  rfl

/-- A node is placed by its parent, and within it. -/
theorem Grounded.composedTransform_of_parent (hlaw : Scalar.Unrounded R) (h : s.Grounded)
    (hn : s.node? id = some n) (hp : n.parent = some p) (hw : s.composedTransform p = .ok w) :
    s.composedTransform id = .ok (w * n.transform) := by
  rw [composedTransform] at hw
  cases hm : s.node? p with
  | none =>
    rw [hm] at hw
    cases hw
  | some m =>
    rw [hm] at hw
    cases hw
    rw [composedTransform, hn, h.ancestors_of_parent? ((parent?_of_node? hn).trans hp)]
    dsimp only
    rw [List.filterMap_cons_some hm, List.foldl_cons, foldl_transform_mul hlaw]

/-! ## Nodes that are not moved -/

/-- Where they are in both scenes, neither the node nor any above it was given another transform or
is below another node. -/
def Unmoved (s s' : Scene R) (j : NodeId) : Prop :=
  ∀ ⦃id n n'⦄, s.Above id j → s.node? id = some n → s'.node? id = some n' →
    n'.parent = n.parent ∧ n'.transform = n.transform

omit [Scalar R] in
theorem Unmoved.parent (h : s.Unmoved s' id) (hp : s.parent? id = some p) : s.Unmoved s' p :=
  fun _ _ _ hup => h (.of_parent? hp hup)

omit [Scalar R] in
theorem Appends.unmoved {P : Kind R → Prop} {host : NodeId} {new : List NodeId}
    (h : Appends P host new s s') (j : NodeId) : s.Unmoved s' j := by
  intro id n n' _ hn hn'
  obtain ⟨k, hk, hgiven, -⟩ := h.kept hn
  rw [hn'] at hk
  cases hk
  simp only [Node.given, Prod.mk.injEq] at hgiven
  exact ⟨hgiven.2.2.2.2.2.1, hgiven.2.2.1⟩

omit [Scalar R] in
theorem Kept.unmoved (h : Kept s s') (j : NodeId) : s.Unmoved s' j := fun _ _ _ _ hn hn' => by
  have heq := h.agree.part_eq hn hn'
  simp only [Node.fixed, Node.given, Prod.mk.injEq] at heq
  exact ⟨heq.1.2.2.2.2.2.1, heq.1.2.2.1⟩

omit [Scalar R] in
/-- The elements of a path are set, and it stays where it is. -/
theorem exists_setPath (hn : s.node? id = some n) (hpath : n.kind.isPath = true)
    (elements : Path R) : ∃ s' n', s.setPath id elements = .ok s' ∧ s'.node? id = some n' ∧
      n'.kind = .path elements ∧ ∀ j, s.Unmoved s' j := by
  generalize ht : s.modify id (fun n => { n with kind := .path elements }) = t
  have hset : s.setPath id elements = .ok (t.touch id .shape) := by
    rw [setPath, hn]
    dsimp only
    rw [if_pos hpath, ht]
  have hnt : t.node? id = some { n with kind := .path elements } := by
    rw [← ht, node?_modify_self, hn, Option.map_some]
  have hmodify : Agree (fun n => (n.parent, n.transform)) s t := by
    rw [← ht]
    exact .modify fun _ _ => rfl
  have htouch : Agree (fun n => (n.kind, n.parent, n.transform)) t (t.touch id .shape) :=
    agree_touch (fun _ _ => rfl) t id .shape
  obtain ⟨n', hn', heq⟩ := htouch.node? hnt
  exact ⟨_, n', hset, hn', congrArg Prod.fst heq, fun j i k k' _ hk hk' => Prod.mk.inj
    ((hmodify.trans (htouch.map Prod.snd)).part_eq hk hk')⟩

/-- Composing the placement of a node looks at what is set on its way up, and nothing else. -/
theorem Unmoved.composedTransform_eq (hlaw : Scalar.Unrounded R) (hs : s.Tree) (hs' : s'.Tree) :
    ∀ {id : NodeId} {n n' : Node R}, s.Unmoved s' id → s.node? id = some n →
      s'.node? id = some n' → s'.composedTransform id = s.composedTransform id := by
  intro id
  induction id using hs.grounded.induction with
  | _ id ih =>
    intro n n' h hn hn'
    obtain ⟨hparent, htransform⟩ := h (.refl s id) hn hn'
    cases hp : n.parent with
    | none =>
      rw [composedTransform_of_root hn hp,
        composedTransform_of_root hn' (hparent.trans hp), htransform]
    | some p =>
      have hup := (parent?_of_node? hn).trans hp
      have hp' := hparent.trans hp
      obtain ⟨m, hm, -⟩ := hs.node?_of_parent? hup
      obtain ⟨m', hm', -⟩ := hs'.node?_of_parent? ((parent?_of_node? hn').trans hp')
      have hsame := ih p hup (h.parent hup) hm hm'
      obtain ⟨w, hw⟩ := exists_composedTransform hm
      rw [hs.grounded.composedTransform_of_parent hlaw hn hp hw,
        hs'.grounded.composedTransform_of_parent hlaw hn' hp' (hsame.trans hw), htransform]

/-! ## From the root down -/

/-- In a scene that has settled, every node has the placement that is composed on demand. -/
theorem Reachable.composedTransform_eq (hlaw : Scalar.Unrounded R) (h : s.Reachable)
    (hfits : s.nodes.Fits) (hclean : s.isDirty = false) :
    ∀ {id : NodeId} {n : Node R}, s.node? id = some n →
      s.composedTransform id = .ok n.world := by
  have hs := h.sound hfits
  have hworld : ∀ {id n}, s.node? id = some n → n.world = s.worldAbove n * n.transform :=
    fun hn => hlaw.affine_eq
      (h.poised hlaw.steady hfits hn (hs.stale_of_not_isDirty hclean hn)).world
  intro id
  induction id using hs.tree.grounded.induction with
  | _ id ih =>
    intro n hn
    cases hp : n.parent with
    | none =>
      rw [composedTransform_of_root hn hp, hworld hn, (above_of_root hp).1,
        Affine.identity_mul _ hlaw]
    | some p =>
      have hp' : s.parent? id = some p := (parent?_of_node? hn).trans hp
      obtain ⟨m, hm, -⟩ := hs.tree.node?_of_parent? hp'
      rw [hs.tree.grounded.composedTransform_of_parent hlaw hn hp (ih p hp' hm), hworld hn,
        (above_of_parent hp hm).1]

/-- A node that was not moved is placed, once the scene has settled, as it was composed before. -/
theorem Unmoved.world_eq (hlaw : Scalar.Unrounded R) {n' : Node R} (h : s.Unmoved s' id)
    (hs : s.Sound) (hn : s.node? id = some n) (hw : s.composedTransform id = .ok w)
    (hreach : s'.Reachable) (hfits : s'.nodes.Fits) (hclean : s'.isDirty = false)
    (hn' : s'.node? id = some n') : n'.world = w := by
  have hsame := composedTransform_eq hlaw hs.tree (hreach.sound hfits).tree h hn hn'
  rw [hreach.composedTransform_eq hlaw hfits hclean hn', hw] at hsame
  exact Except.ok.inj hsame

/-- In a scene that has settled, a path that is placed by the identity has the box of its elements
as they were given. -/
theorem Reachable.box_of_identity (hlaw : Scalar.Unrounded R) (h : s.Reachable)
    (hfits : s.nodes.Fits) (hclean : s.isDirty = false) (hn : s.node? id = some n)
    (hworld : n.world = .identity) {elements : Path R} (hkind : n.kind = .path elements) :
    n.box = elements.bounds := by
  rw [h.box_eq hfits hclean hn, computeBox, hn]
  dsimp only
  rw [hkind]
  dsimp only
  rw [hworld, Path.transformed_identity hlaw]

end Scene

end Freehand
