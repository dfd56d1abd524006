import Freehand.Proofs.Scene.Lookup
import Freehand.Scene.Update
import Mathlib.Data.List.Basic
import Mathlib.Logic.Relation

/-!
# What boxes depend on

The box of a node is computed from its own placement, from the boxes of its children, and from the
content of the nodes that it leads to, through children and through clones.  Scenes that agree there
give the node the same box (`computeBox_congr`).
-/

namespace Freehand

/-- What measuring reads of a node. -/
def Node.content {R : Type} (n : Node R) : Kind R × Affine R × Bool × List NodeId :=
  (n.kind, n.transform, n.hidden, n.children)

namespace Scene

variable {R : Type} {s s' : Scene R} {id : NodeId}

/-- The node `d` is a child of `id` or what it shows. -/
def Leads (s : Scene R) (id d : NodeId) : Prop :=
  ∃ n, s.node? id = some n ∧ (d ∈ n.children ∨ n.kind.source? = some d)

/-- The node `d` is reached from `id` through children and through clones. -/
def Reaches (s : Scene R) (id d : NodeId) : Prop :=
  Relation.ReflTransGen s.Leads id d

/-- The scenes agree in the content of all that `id` reaches in the first one. -/
def SameContent (s s' : Scene R) (id : NodeId) : Prop :=
  ∀ d, s.Reaches id d → (s'.node? d).map Node.content = (s.node? d).map Node.content

theorem SameContent.of_leads (h : SameContent s s' id) {d : NodeId} (hd : s.Leads id d) :
    SameContent s s' d :=
  fun c hc => h c (Relation.ReflTransGen.head hd hc)

/-- Cases on the content of a node in two scenes that agree on it. -/
theorem SameContent.cases (h : SameContent s s' id) :
    (s.node? id = none ∧ s'.node? id = none) ∨
    ∃ n n', s.node? id = some n ∧ s'.node? id = some n' ∧ n'.kind = n.kind ∧
      n'.transform = n.transform ∧ n'.hidden = n.hidden ∧ n'.children = n.children := by
  have hid := h id .refl
  cases hn : s.node? id with
  | none =>
    rw [hn, Option.map_none, Option.map_eq_none_iff] at hid
    exact .inl ⟨rfl, hid⟩
  | some n =>
    rw [hn, Option.map_some] at hid
    obtain ⟨n', hn', heq⟩ := Option.map_eq_some_iff.1 hid
    simp only [Node.content, Prod.mk.injEq] at heq
    exact .inr ⟨n, n', rfl, hn', heq⟩

variable [Scalar R]

/-- The box of some content is the same in scenes that agree on what it reaches. -/
theorem contentBox_congr :
    ∀ (levels : Nat) {id : NodeId}, SameContent s s' id →
      s'.contentBox levels id = s.contentBox levels id := by
  intro levels
  induction levels with
  | zero => exact fun _ => rfl
  | succ levels ih =>
    intro id h
    simp only [contentBox]
    rcases h.cases with ⟨hn, hn'⟩ | ⟨n, n', hn, hn', hkind, -, -, hchildren⟩
    · rw [hn, hn']
    · rw [hn, hn']
      dsimp only
      rw [hkind, hchildren]
      cases hk : n.kind with
      | path elements => rfl
      | gradient stops => rfl
      | group layer =>
        refine List.foldl_ext _ _ _ fun box c hc => ?_
        have hc' := h.of_leads ⟨n, hn, .inl hc⟩
        rw [ih hc']
        rcases hc'.cases with ⟨hm, hm'⟩ | ⟨m, m', hm, hm', -, htransform, hhidden, -⟩
        · rw [hm, hm']
        · rw [hm, hm']
          dsimp only
          rw [htransform, hhidden]
      | clone source =>
        cases source with
        | none => rfl
        | some source =>
          have hsource := h.of_leads ⟨n, hn, .inr (by rw [hk]; rfl)⟩
          dsimp only
          rw [ih hsource]
          rcases hsource.cases with ⟨hm, hm'⟩ | ⟨m, m', hm, hm', -, htransform, -, -⟩
          · rw [hm, hm']
          · rw [hm, hm']
            dsimp only
            rw [htransform]

/-- The box of a group is the same if its children are shown alike and have the same boxes. -/
theorem shownBox_congr {children : List NodeId}
    (h : ∀ c ∈ children, (s'.node? c).map (fun n => (n.hidden, n.box)) =
      (s.node? c).map fun n => (n.hidden, n.box)) :
    s'.shownBox children = s.shownBox children := by
  simp only [shownBox]
  generalize (none : Option (Rect R)) = box
  induction children generalizing box with
  | nil => rfl
  | cons c children ih =>
    have hrest := ih fun d hd => h d (List.mem_cons_of_mem c hd)
    have hc := h c List.mem_cons_self
    cases hn : s.node? c with
    | none =>
      rw [hn, Option.map_none, Option.map_eq_none_iff] at hc
      simp only [List.filterMap_cons, hn, hc]
      exact hrest box
    | some n =>
      rw [hn, Option.map_some] at hc
      obtain ⟨n', hn', heq⟩ := Option.map_eq_some_iff.1 hc
      simp only [Prod.mk.injEq] at heq
      simp only [List.filterMap_cons, hn, hn', List.filter_cons, heq.1]
      split
      · rw [List.foldl_cons, List.foldl_cons, heq.2]
        exact hrest _
      · exact hrest box

/-- A box depends on the content that a node reaches, its placement and its children's boxes. -/
theorem computeBox_congr (hcontent : SameContent s s' id)
    (hworld : (s'.node? id).map Node.world = (s.node? id).map Node.world)
    (hboxes : ∀ n, s.node? id = some n → ∀ c ∈ n.children,
      (s'.node? c).map Node.box = (s.node? c).map Node.box) :
    s'.computeBox id = s.computeBox id := by
  simp only [computeBox]
  rcases hcontent.cases with ⟨hn, hn'⟩ | ⟨n, n', hn, hn', hkind, -, -, hchildren⟩
  · rw [hn, hn']
  · rw [hn, hn'] at hworld ⊢
    have hworld' : n'.world = n.world := Option.some.inj hworld
    dsimp only
    rw [hkind, hchildren, hworld']
    cases hk : n.kind with
    | path elements => rfl
    | gradient stops => rfl
    | group layer =>
      refine shownBox_congr fun c hc => ?_
      have hbox := hboxes n hn c hc
      rcases (hcontent.of_leads ⟨n, hn, .inl hc⟩).cases with
        ⟨hm, hm'⟩ | ⟨m, m', hm, hm', -, -, hhidden, -⟩
      · rw [hm, hm']
      · rw [hm, hm'] at hbox ⊢
        have hbox' : m'.box = m.box := Option.some.inj hbox
        rw [Option.map_some, Option.map_some, hhidden, hbox']
    | clone source =>
      cases source with
      | none => rfl
      | some source =>
        have hsource := hcontent.of_leads ⟨n, hn, .inr (by rw [hk]; rfl)⟩
        dsimp only
        rw [contentBox_congr contentLevels hsource]
        rcases hsource.cases with ⟨hm, hm'⟩ | ⟨m, m', hm, hm', -, htransform, -, -⟩
        · rw [hm, hm']
        · rw [hm, hm']
          dsimp only
          rw [htransform]

end Scene

end Freehand
