import Freehand.Proofs.Geometry.Extent
import Freehand.Proofs.Scene.Settled

/-!
# What a clone shows of groups in groups

The content of a clone's source is measured down to a fixed number of levels, whether it is clones
or groups that nest.

* Measuring finds a box exactly if it comes to a path with a point: a path that is shown below the
  node at fewer levels than are measured (`Tree.isSome_contentBox_iff`).
* So in a scene that has settled the clone of a source without clones in it has a box exactly if a
  path with a point is shown at most 32 levels below the source (`Reachable.isSome_box_clone`).
* Content that is nested deeper is left out, though no clone shows another one there
  (`not_isSome_box_clone`).
-/

namespace Freehand

variable {R : Type} [Scalar R]

/-! ## When there is a box -/

theorem Rect.isSome_join (a b : Option (Rect R)) :
    (Rect.join a b).isSome = (a.isSome || b.isSome) := by
  cases a <;> cases b <;> rfl

theorem Rect.isSome_foldl_join {α : Type} (box : α → Option (Rect R)) (as : List α)
    (found : Option (Rect R)) : (as.foldl (fun found a => Rect.join found (box a)) found).isSome =
      (found.isSome || as.any fun a => (box a).isSome) := by
  induction as generalizing found with
  | nil => rw [List.foldl_nil, List.any_nil, Bool.or_false]
  | cons a as ih => rw [List.foldl_cons, ih, isSome_join, List.any_cons, Bool.or_assoc]

theorem PathElement.isSome_bounds? (current : Option (Point R)) (el : PathElement R) :
    (el.bounds? current).isSome = el.endPoint?.isSome := by
  cases el <;> cases current <;> rfl

/-- A path has a bounding box exactly if it has a point. -/
theorem Path.isSome_bounds (path : Path R) : path.bounds.isSome = true ↔ Path.ends path ≠ [] := by
  have hfrom : ∀ (path : Path R) (current : Option (Point R)) (found : Option (Rect R)),
      (boundsFrom current found path).isSome =
        (found.isSome || path.any fun el => el.endPoint?.isSome) := by
    intro path
    induction path with
    | nil => exact fun _ found => (Bool.or_false found.isSome).symm
    | cons el path ih =>
      intro current found
      rw [boundsFrom, ih, Rect.isSome_join, PathElement.isSome_bounds?, List.any_cons,
        Bool.or_assoc]
  rw [bounds, hfrom, Option.isSome_none, Bool.false_or, List.any_eq_true, ends, ne_eq,
    List.filterMap_eq_nil_iff]
  simp [Option.isSome_iff_ne_none]

namespace Scene

variable {s : Scene R} {id c d source : NodeId} {n m : Node R} {k levels : Nat}

/-! ## What is shown below a node -/

/-- The node `d` is shown some levels below `id`: neither it nor what is in between is hidden. -/
inductive Shows (s : Scene R) : Nat → NodeId → NodeId → Prop where
  | refl (id : NodeId) : Shows s 0 id id
  | child {k : Nat} {id c d : NodeId} {m : Node R} (hparent : s.parent? c = some id)
      (hm : s.node? c = some m) (hshown : m.hidden = false) (h : Shows s k c d) :
      Shows s (k + 1) id d

/-- The node is a path with a point. -/
def HasPoint (s : Scene R) (id : NodeId) : Prop :=
  ∃ n elements, s.node? id = some n ∧ n.kind = .path elements ∧ Path.ends elements ≠ []

/-- No node at or below `id` is a clone. -/
def Plain (s : Scene R) (id : NodeId) : Prop :=
  ∀ ⦃d m⦄, s.Above id d → s.node? d = some m → m.kind.isClone = false

omit [Scalar R] in
theorem Sound.plain_of_all (h : s.Sound) (hfits : s.nodes.Fits)
    (hall : (s.nodes.toList.all fun x =>
      !x.2.kind.isClone || !(x.1 :: s.ancestors x.1).contains id) = true) : s.Plain id := by
  intro d m hup hm
  have hd : (!m.kind.isClone || !(d :: s.ancestors d).contains id) = true :=
    List.all_eq_true.1 hall (d, m) ((Arena.mem_toList hfits).2 hm)
  have hin : (d :: s.ancestors d).contains id = true :=
    List.contains_iff_mem.2 (h.tree.grounded.mem_self_ancestors_iff.2 hup)
  rw [hin, Bool.not_true, Bool.or_false] at hd
  simpa using hd

omit [Scalar R] in
/-- What is shown is the node itself, or it is shown below a child. -/
theorem shows_succ_iff {P : NodeId → Prop} : (∃ k d, k < levels + 1 ∧ s.Shows k id d ∧ P d) ↔
    P id ∨ ∃ c m, s.parent? c = some id ∧ s.node? c = some m ∧ m.hidden = false ∧
      ∃ k d, k < levels ∧ s.Shows k c d ∧ P d := by
  constructor
  · rintro ⟨k, d, hk, hshows, hd⟩
    cases hshows with
    | refl => exact .inl hd
    | child hparent hm hshown hshows =>
      exact .inr ⟨_, _, hparent, hm, hshown, _, d, Nat.lt_of_succ_lt_succ hk, hshows, hd⟩
  · rintro (hd | ⟨c, m, hparent, hm, hshown, k, d, hk, hshows, hd⟩)
    · exact ⟨0, id, Nat.succ_pos levels, .refl id, hd⟩
    · exact ⟨k + 1, d, Nat.succ_lt_succ hk, .child hparent hm hshown hshows, hd⟩

/-- Measuring a group measures the children that it shows, one level less. -/
theorem Tree.isSome_contentBox_group (h : s.Tree) (hn : s.node? id = some n)
    (hgroup : n.kind.isGroup = true) : (s.contentBox (levels + 1) id).isSome = true ↔
      ∃ c m, s.parent? c = some id ∧ s.node? c = some m ∧ m.hidden = false ∧
        (s.contentBox levels c).isSome = true := by
  obtain ⟨layer, hkind⟩ : ∃ layer, n.kind = .group layer := by
    cases hk : n.kind with
    | group layer => exact ⟨layer, rfl⟩
    | path | gradient | clone =>
      rw [hk] at hgroup
      cases hgroup
  rw [contentBox, hn]
  dsimp only
  rw [hkind]
  dsimp only
  rw [Rect.isSome_foldl_join, Option.isSome_none, Bool.false_or, List.any_eq_true]
  constructor
  · rintro ⟨c, hc, hbox⟩
    cases hm : s.node? c with
    | none => simp [hm] at hbox
    | some m =>
      cases hhidden : m.hidden with
      | true => simp [hm, hhidden] at hbox
      | false =>
        refine ⟨c, m, (h.mem_children_iff hn).1 hc, hm, hhidden, ?_⟩
        simpa [hm, hhidden] using hbox
  · rintro ⟨c, m, hparent, hm, hhidden, hbox⟩
    exact ⟨c, (h.mem_children_iff hn).2 hparent, by simpa [hm, hhidden] using hbox⟩

/-- Measuring a node that is neither a group nor a clone finds its own point. -/
theorem isSome_contentBox_leaf (hn : s.node? id = some n) (hgroup : n.kind.isGroup = false)
    (hclone : n.kind.isClone = false) :
    (s.contentBox (levels + 1) id).isSome = true ↔ s.HasPoint id := by
  rw [contentBox, HasPoint, hn]
  dsimp only
  cases hk : n.kind with
  | path elements =>
    rw [Path.isSome_bounds]
    simp [hk]
  | gradient stops => simp [hk]
  | clone source =>
    rw [hk] at hclone
    cases hclone
  | group layer =>
    rw [hk] at hgroup
    cases hgroup

/-- Measuring some levels finds what is shown at fewer levels. -/
theorem Tree.isSome_contentBox_iff (h : s.Tree) :
    ∀ {levels : Nat} {id : NodeId}, s.Plain id → ((s.contentBox levels id).isSome = true ↔
      ∃ k d, k < levels ∧ s.Shows k id d ∧ s.HasPoint d) := by
  intro levels
  induction levels with
  | zero =>
    intro id _
    rw [contentBox]
    simp
  | succ levels ih =>
    intro id hplain
    rw [shows_succ_iff]
    -- Only groups have children, and groups have no points of their own.
    have hchild : ∀ {c}, s.parent? c = some id → ∃ n, s.node? id = some n ∧ n.kind.isGroup = true :=
      fun hparent => (h.node?_of_parent? hparent).imp fun n hn => ⟨hn.1, hn.2.1⟩
    cases hn : s.node? id with
    | none =>
      rw [contentBox, hn]
      refine iff_of_false (by simp) ?_
      rintro (⟨n, -, hn', -⟩ | ⟨c, -, hparent, -⟩)
      · rw [hn] at hn'
        cases hn'
      · obtain ⟨n, hn', -⟩ := hchild hparent
        rw [hn] at hn'
        cases hn'
    | some n =>
      cases hgroup : n.kind.isGroup with
      | true =>
        rw [h.isSome_contentBox_group hn hgroup, or_iff_right]
        · refine exists₂_congr fun c m => and_congr_right fun hparent => ?_
          rw [ih fun d k hd => hplain ((Above.of_parent? hparent (.refl s id)).trans hd)]
        · rintro ⟨n', elements, hn', hkind, -⟩
          rw [hn] at hn'
          cases hn'
          rw [hkind] at hgroup
          cases hgroup
      | false =>
        rw [isSome_contentBox_leaf hn hgroup (hplain (.refl s id) hn), or_iff_left]
        rintro ⟨c, -, hparent, -⟩
        obtain ⟨n', hn', hgroup'⟩ := hchild hparent
        rw [hn] at hn'
        cases hn'
        rw [hgroup] at hgroup'
        cases hgroup'

/-- In a scene that has settled a clone has a box exactly if a path with a point is shown at most 32
levels below its source, or is the source.  The source itself may be hidden, and has no clones in
it. -/
theorem Reachable.isSome_box_clone (h : s.Reachable) (hfits : s.nodes.Fits)
    (hclean : s.isDirty = false) (hn : s.node? id = some n) (hkind : n.kind = .clone (some source))
    (hplain : s.Plain source) :
    n.box.isSome = true ↔ ∃ k d, k ≤ 32 ∧ s.Shows k source d ∧ s.HasPoint d := by
  have hsound := h.sound hfits
  have hsource : s.held? id .cloneSource = some source := by
    rw [held?_of_node? hn, Node.held, hkind]
    rfl
  obtain ⟨m, hm⟩ := hsound.node?_of_leads (hsound.tree.leads_iff.2 (.inr hsource))
  have hbox : n.box =
      (s.contentBox contentLevels source).map (n.world * m.transform).mapRect := by
    rw [h.box_eq hfits hclean hn, computeBox, hn]
    dsimp only
    rw [hkind]
    dsimp only
    rw [hm]
  rw [hbox, Option.isSome_map, hsound.tree.isSome_contentBox_iff hplain]
  simp only [contentLevels, Nat.lt_succ_iff]

/-! ## Groups nested too deep -/

/-- Groups in each other, a line in the innermost one, and clones of the outermost group and of the
next one. -/
def nested : Scene Int :=
  (Stage.run (Conduct.silent.listener 0)
    ((List.range 33).map (fun k => .addChild ⟨k.toUInt32, 0⟩ (.group false)) ++
      [.addChild ⟨33, 0⟩ (.path [.moveTo ⟨0, 0⟩, .lineTo ⟨2, 1⟩]),
        .addChild ⟨0, 0⟩ (.clone (some ⟨1, 0⟩)), .addChild ⟨0, 0⟩ (.clone (some ⟨2, 0⟩)), .settle])
    (Stage.ofScene (new 16) ())).scene

theorem reachable_nested : nested.Reachable :=
  ⟨Unit, .silent, 0, 16, (), _, rfl⟩

theorem exists_clone_nested {id source : NodeId}
    (h : (nested.node? id).bind (fun n => n.kind.source?) = some source) :
    ∃ n, nested.node? id = some n ∧ n.kind = .clone (some source) := by
  obtain ⟨n, hn, hsource⟩ := Option.bind_eq_some_iff.1 h
  refine ⟨n, hn, ?_⟩
  cases hk : n.kind with
  | clone target =>
    rw [hk] at hsource
    exact congrArg Kind.clone hsource
  | group | path | gradient =>
    rw [hk] at hsource
    cases hsource

/-- The second group is shown, as the line is 32 levels below it. -/
theorem Reachable.isSome_box_clone_nested : ∃ n, nested.node? ⟨36, 0⟩ = some n ∧
    n.box.isSome = true ∧ ∃ k d, k ≤ 32 ∧ nested.Shows k ⟨2, 0⟩ d ∧ nested.HasPoint d := by
  have hfits : nested.nodes.Fits := by decide +kernel
  obtain ⟨n, hn, hkind⟩ := exists_clone_nested (show (nested.node? ⟨36, 0⟩).bind _ = some ⟨2, 0⟩ by
    decide +kernel)
  have hbox : ((nested.node? ⟨36, 0⟩).bind Node.box).isSome = true := by decide +kernel
  rw [hn, Option.bind_some] at hbox
  exact ⟨n, hn, hbox, (reachable_nested.isSome_box_clone hfits (by decide +kernel) hn hkind
    ((reachable_nested.sound hfits).plain_of_all hfits (by decide +kernel))).1 hbox⟩

/-- The outermost group has a line in it that is shown, but its clone has no box. -/
theorem not_isSome_box_clone : ¬∀ (s : Scene Int) (id source : NodeId) (n : Node Int),
    s.Reachable → s.nodes.Fits → s.isDirty = false → s.node? id = some n →
      n.kind = .clone (some source) → s.Plain source →
      (n.box.isSome = true ↔ ∃ k d, s.Shows k source d ∧ s.HasPoint d) := by
  intro hall
  have hfits : nested.nodes.Fits := by decide +kernel
  have hsound := reachable_nested.sound hfits
  obtain ⟨n, hn, hkind⟩ := exists_clone_nested (show (nested.node? ⟨35, 0⟩).bind _ = some ⟨1, 0⟩ by
    decide +kernel)
  have hplain : nested.Plain ⟨1, 0⟩ := hsound.plain_of_all hfits (by decide +kernel)
  -- Measuring one more level finds the line.
  have hdeeper : (nested.contentBox (contentLevels + 1) ⟨1, 0⟩).isSome = true := by decide +kernel
  obtain ⟨k, d, -, hshows, hpoint⟩ := (hsound.tree.isSome_contentBox_iff hplain).1 hdeeper
  have hbox := (hall nested ⟨35, 0⟩ ⟨1, 0⟩ n reachable_nested hfits (by decide +kernel) hn hkind
    hplain).2 ⟨k, d, hshows, hpoint⟩
  have hnone : ((nested.node? ⟨35, 0⟩).bind Node.box).isSome = false := by decide +kernel
  rw [hn, Option.bind_some, hbox] at hnone
  cases hnone

end Scene

end Freehand
