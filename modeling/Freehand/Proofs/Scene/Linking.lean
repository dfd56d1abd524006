import Freehand.Proofs.Scene.Dependence

/-!
# Links that close a cycle

A clone is not linked to itself, nor to a node above it.  Nothing else is refused, so a clone may be
linked to a node that leads to it by other ways, through its own clones or through those of its
neighbours.  Such a link closes a cycle (`Command.Closes`), and nothing else does: every other
command takes ways away or leads to a new node, which leads nowhere.

So in a run all scenes are free of cycles exactly if no such link was accepted
(`Course.acyclic_iff`).
-/

namespace Freehand

open Relation (TransGen ReflTransGen)

/-- Where a node leads. -/
def Node.leads {R : Type} (n : Node R) : List NodeId × Option NodeId :=
  (n.children, n.kind.source?)

namespace Scene

variable {R : Type} {s s' s'' t : Scene R} {a b c id p : NodeId} {n m : Node R}

theorem leads_iff_leads : s.Leads a b ↔
    ∃ l, (s.node? a).map Node.leads = some l ∧ (b ∈ l.1 ∨ l.2 = some b) := by
  constructor
  · rintro ⟨n, hn, hb⟩
    exact ⟨n.leads, by rw [hn, Option.map_some], hb⟩
  · rintro ⟨l, hl, hb⟩
    obtain ⟨n, hn, rfl⟩ := Option.map_eq_some_iff.1 hl
    exact ⟨n, hn, hb⟩

theorem leads_iff_of_agree (h : Agree Node.leads s s') : s'.Leads a b ↔ s.Leads a b := by
  rw [leads_iff_leads, leads_iff_leads, h a]

/-! ## Changes that take ways away -/

/-- Nodes lead where they led before, at most. -/
def Loosens (s s' : Scene R) : Prop :=
  ∀ ⦃a b⦄, s'.Leads a b → s.Leads a b

namespace Loosens

theorem trans (h : Loosens s s') (h' : Loosens s' s'') : Loosens s s'' :=
  fun _ _ hab => h (h' hab)

theorem of_agree (h : Agree Node.leads s s') : Loosens s s' :=
  fun _ _ => (leads_iff_of_agree h).1

theorem refl (s : Scene R) : Loosens s s :=
  fun _ _ hab => hab

theorem foldl {α : Type} {f : Scene R → α → Scene R} (h : ∀ s a, Loosens s (f s a))
    (as : List α) (s : Scene R) : Loosens s (as.foldl f s) :=
  as.foldlRecOn f (.refl s) fun t ht a _ => ht.trans (h t a)

theorem modify {f : Node R → Node R} (hchildren : ∀ n, (f n).children ⊆ n.children)
    (hsource : ∀ n b, (f n).kind.source? = some b → n.kind.source? = some b) :
    Loosens s (s.modify id f) := by
  rintro a b ⟨n', hn', hb⟩
  rw [node?_modify] at hn'
  split at hn'
  · obtain ⟨n, hn, rfl⟩ := Option.map_eq_some_iff.1 hn'
    exact ⟨n, hn, hb.imp (fun hb => hchildren n hb) (hsource n b)⟩
  · exact ⟨n', hn', hb⟩

theorem touch (s : Scene R) (id : NodeId) (flags : Flags) : Loosens s (s.touch id flags) :=
  .of_agree (agree_touch (fun _ _ => rfl) s id flags)

/-- A subscriber that drops its reference shows less than before. -/
theorem dropReference (target : NodeId) (s : Scene R) (k : Link) :
    Loosens s (dropReference target s k) := by
  refine (Loosens.modify (fun n => ?_) fun n b hb => ?_).trans (.touch _ _ _)
  · have hlasting := lasting_withoutTarget target k.role n
    simp only [Node.lasting, Node.place, Prod.mk.injEq] at hlasting
    rw [hlasting.1.2.2]
    exact List.Subset.refl _
  · cases hr : k.role with
    | cloneSource =>
      simp only [withoutTarget, hr] at hb
      split at hb
      · simp [Kind.source?] at hb
      · exact hb
    | fillServer | strokeServer =>
      simp only [withoutTarget, hr] at hb
      exact hb

/-- Freeing a node takes away what leads to it and from it. -/
theorem release (s : Scene R) (id : NodeId) : Loosens s (s.release id) := by
  rw [Scene.release]
  split
  · exact .refl s
  next n _ =>
    have hclear : Loosens s (s.modify id fun n => { n with subscribers := [], references := [] }) :=
      .of_agree (.modify fun _ _ => rfl)
    have hunlink : ∀ (t : Scene R) (l : Link), Loosens t (t.unlink id l.node l.role) :=
      fun t l => .of_agree (agree_unlink (fun _ _ _ => rfl) t id l.node l.role)
    refine ((hclear.trans (.foldl (.dropReference id) n.subscribers _)).trans
      (.foldl hunlink n.references _)).trans ?_
    rintro a b ⟨k, hk, hb⟩
    rw [node?_free] at hk
    split at hk
    · cases hk
    · exact ⟨k, hk, hb⟩

theorem remove [Scalar R] {freed : List NodeId} (h : s.remove id = .ok (s', freed)) :
    Loosens s s' := by
  obtain ⟨-, n, -, -, rfl⟩ := eq_of_remove_eq_ok h
  have hcut : Loosens s (s.cut id n) := by
    simp only [cut, detach]
    cases n.parent with
    | none => exact .refl s
    | some p => exact .modify (fun n => List.filter_subset_self n.children) fun _ _ hb => hb
  exact (hcut.trans (.foldl release freed _)).trans
    (.of_agree (agree_touchParent (fun _ _ => rfl) _ _))

end Loosens

/-! ## Edits -/

theorem loosens_setReference (s : Scene R) (o : NodeId) (r : Role) (target : Option NodeId) :
    Loosens s (s.setReference o r target) :=
  .of_agree (agree_setReference (fun _ _ _ => rfl) s o r target)

/-- A clone that is given another source leads there, and all else leads where it led. -/
theorem leads_setSource (s : Scene R) (c : NodeId) (source : Option NodeId) (j : NodeId) :
    ((s.setSource c source).node? j).map Node.leads =
      (s.node? j).map fun n => (n.children, if j = c then source else n.kind.source?) := by
  have htouch : Agree Node.leads ((s.setReference c .cloneSource source).modify c fun n =>
      { n with kind := .clone source }) (s.setSource c source) :=
    agree_touch (fun _ _ => rfl) _ c _
  have hlinks : Agree Node.alone s (s.setReference c .cloneSource source) :=
    agree_setReference (fun _ _ _ => rfl) s c _ source
  rw [htouch j, node?_modify]
  split
  next hj =>
    rw [Option.map_map]
    exact hlinks.map (fun n => (n.children, source)) j
  next => exact hlinks.map Node.leads j

theorem leads_of_setSource {source : Option NodeId} (h : (s.setSource c source).Leads a b) :
    s.Leads a b ∨ a = c ∧ source = some b := by
  obtain ⟨l, hl, hb⟩ := leads_iff_leads.1 h
  rw [leads_setSource] at hl
  obtain ⟨n, hn, rfl⟩ := Option.map_eq_some_iff.1 hl
  rcases hb with hchild | hsource
  · exact .inl ⟨n, hn, .inl hchild⟩
  · dsimp only at hsource
    split at hsource
    next hac => exact .inr ⟨hac, hsource⟩
    next => exact .inl ⟨n, hn, .inr hsource⟩

theorem leads_setSource_of_ne {source : Option NodeId} (hac : a ≠ c) (h : s.Leads a b) :
    (s.setSource c source).Leads a b := by
  obtain ⟨n, hn, hb⟩ := h
  refine leads_iff_leads.2 ⟨n.leads, ?_, hb⟩
  rw [leads_setSource, hn, Option.map_some, if_neg hac]
  rfl

theorem leads_setSource_self (hn : s.node? c = some n) (source : NodeId) :
    (s.setSource c (some source)).Leads c source := by
  refine leads_iff_leads.2 ⟨(n.children, some source), ?_, .inr rfl⟩
  rw [leads_setSource, hn, Option.map_some, if_pos rfl]

/-- What linking a clone does, if it is not refused. -/
theorem eq_of_linkClone {source : NodeId} (h : s.linkClone c source = .ok s') :
    s' = s.setSource c (some source) ∧ (∃ n, s.node? c = some n) ∧ source ≠ c ∧
      ∃ m, s.node? source = some m := by
  obtain ⟨⟨⟩, hclone, h⟩ := exists_of_bind_eq_ok h
  obtain ⟨⟨⟩, hsource, h⟩ := exists_of_bind_eq_ok h
  cases h
  obtain ⟨n, hn, -⟩ := isClone_of_checkClone hclone
  rw [checkSource] at hsource
  split at hsource
  · cases hsource
  next m hm =>
    split at hsource
    · cases hsource
    · refine ⟨rfl, ⟨n, hn⟩, fun heq => ?_, m, hm⟩
      rw [acceptReference, if_neg (by simp [contains_of_node? hn]),
        if_neg (by simp [contains_of_node? hm]), if_pos (.inl heq)] at hsource
      cases hsource

/-- Storing in a node what does not lead anywhere, and marking it. -/
theorem loosens_store (s : Scene R) (id : NodeId) (f : Node R → Node R) (flags : Flags)
    (hf : ∀ n, (f n).leads = n.leads) : Loosens s ((s.modify id f).touch id flags) :=
  (Loosens.of_agree (.modify fun n _ => hf n)).trans (.touch _ _ _)

theorem loosens_setPath {elements : Path R} (he : s.setPath id elements = .ok s') :
    Loosens s s' := by
  rw [setPath] at he
  split at he
  · cases he
  · split at he
    · cases he
      have hpath : Loosens s (s.modify id fun n => { n with kind := .path elements }) := by
        refine .modify (fun n => ?_) fun n b hb => ?_
        · exact List.Subset.refl n.children
        · simp [Kind.source?] at hb
      exact hpath.trans (.touch _ _ _)
    · cases he

theorem loosens_setTransform {transform : Affine R} (he : s.setTransform id transform = .ok s') :
    Loosens s s' := by
  rw [setTransform] at he
  split at he
  · cases he
    exact loosens_store s id _ _ fun _ => rfl
  · cases he

theorem loosens_changeUnless {isSo : Node R → Bool} {f : Node R → Node R} {flags : Flags}
    (he : s.changeUnless id isSo f flags = .ok s') (hf : ∀ n, (f n).leads = n.leads) :
    Loosens s s' := by
  rw [changeUnless] at he
  split at he
  · cases he
  · split at he
    · cases he
      exact .refl s
    · cases he
      exact loosens_store s id _ _ hf

theorem loosens_setStyle {style : Style R} (he : s.setStyle id style = .ok s') :
    Loosens s s' := by
  obtain ⟨⟨⟩, -, he⟩ := exists_of_bind_eq_ok he
  obtain ⟨⟨⟩, -, he⟩ := exists_of_bind_eq_ok he
  split at he
  · cases he
    exact ((loosens_setReference s id _ _).trans (loosens_setReference _ id _ _)).trans
      (loosens_store _ id _ _ fun _ => rfl)
  · cases he

theorem loosens_setServer {server : NodeId} {role : Role} {paint : Style R → Style R}
    (he : s.setServer id server role paint = .ok s') : Loosens s s' := by
  obtain ⟨⟨⟩, -, he⟩ := exists_of_bind_eq_ok he
  cases he
  exact (loosens_setReference s id _ _).trans (loosens_store _ id _ _ fun _ => rfl)

theorem loosens_requestUpdate {flags : Flags} (he : s.requestUpdate id flags = .ok s') :
    Loosens s s' := by
  rw [requestUpdate] at he
  split at he
  · cases he
    exact .touch s id flags
  · cases he

theorem loosens_unlinkClone (he : s.unlinkClone c = .ok s') : Loosens s s' := by
  obtain ⟨⟨⟩, -, he⟩ := exists_of_bind_eq_ok he
  cases he
  exact fun a b hab => (leads_of_setSource hab).resolve_right fun hand => nomatch hand.2

/-- Every edit but linking a clone takes ways away at most. -/
theorem loosens_apply (e : Edit R) (he : e.apply s = .ok s') :
    Loosens s s' ∨ ∃ clone source, e = .linkClone clone source := by
  cases e with
  | setPath id elements => exact .inl (loosens_setPath he)
  | setTransform id m => exact .inl (loosens_setTransform he)
  | setHidden id hidden => exact .inl (loosens_changeUnless he fun _ => rfl)
  | setLocked id locked => exact .inl (loosens_changeUnless he fun _ => rfl)
  | setStyle id style => exact .inl (loosens_setStyle he)
  | linkClone clone source => exact .inr ⟨clone, source, rfl⟩
  | unlinkClone clone => exact .inl (loosens_unlinkClone he)
  | setFillServer owner server =>
    rw [Edit.apply, setFillServer] at he
    exact .inl (loosens_setServer he)
  | setStrokeServer owner server =>
    rw [Edit.apply, setStrokeServer] at he
    exact .inl (loosens_setServer he)
  | requestUpdate id flags => exact .inl (loosens_requestUpdate he)

/-- A clone may be linked to a node that does not lead to it. -/
theorem acyclic_linkClone {source : NodeId} (h : Acyclic s.Leads)
    (he : s.linkClone c source = .ok s') (hopen : ¬s.Reaches source c) : Acyclic s'.Leads := by
  obtain ⟨rfl, -⟩ := eq_of_linkClone he
  refine h.of_edge (c := c) (t := source) (fun a b hab => ?_) hopen
  exact (leads_of_setSource hab).imp_right fun ⟨hac, hb⟩ => ⟨hac, (Option.some.inj hb).symm⟩

theorem not_acyclic_linkClone {source : NodeId} (he : s.linkClone c source = .ok s')
    (hway : s.Reaches source c) : ¬Acyclic s'.Leads := by
  obtain ⟨rfl, ⟨n, hn⟩, -⟩ := eq_of_linkClone he
  intro h
  have hkept : ∀ ⦃a b⦄, a ≠ c → s.Leads a b → (s.setSource c (some source)).Leads a b :=
    fun _ _ => leads_setSource_of_ne
  exact h c (.head' (leads_setSource_self hn source) (Acyclic.reaches_of_edge hkept hway))

/-! ## New nodes -/

section

variable [Scalar R] {kind : Kind R} (hs : s.Sound) (hfits : (s.plant p kind).nodes.Fits)
include hs hfits

/-- Before it was added, no way led from a new node or to it. -/
theorem not_reaches_nextId (hne : a ≠ s.nextId p kind) :
    ¬s.Reaches a (s.nextId p kind) ∧ ¬s.Reaches (s.nextId p kind) a := by
  have hgone := node?_nextId hs.valid hfits
  constructor
  · intro hway
    rcases Relation.ReflTransGen.cases_tail hway with heq | ⟨b, -, hleads⟩
    · exact hne heq.symm
    · obtain ⟨k, hk⟩ := hs.node?_of_leads hleads
      rw [hgone] at hk
      cases hk
  · intro hway
    rcases Relation.ReflTransGen.cases_head hway with heq | ⟨b, ⟨k, hk, -⟩, -⟩
    · exact hne heq.symm
    · rw [hgone] at hk
      cases hk

variable (hp : s.node? p = some m) (hsource : kind.source? = none)
include hp hsource

/-- A new node leads nowhere, and is led to by its parent only. -/
theorem leads_insertChild_iff :
    (s.insertChild p kind).2.Leads a b ↔ s.Leads a b ∨ a = p ∧ b = s.nextId p kind := by
  have htouch : Agree Node.leads (s.plant p kind) (s.insertChild p kind).2 :=
    agree_insertChild (fun _ _ => rfl) s p kind
  rw [leads_iff_of_agree htouch]
  constructor
  · rintro ⟨n', hn', hb⟩
    rcases node?_plant_cases hs.valid hfits hp hn' with ⟨-, rfl⟩ | ⟨n, hn, rfl⟩
    · simp [Node.ofKind, hsource] at hb
    · rcases hb with hchild | hshown
      · dsimp only at hchild
        split at hchild
        next hap =>
          rcases List.mem_append.1 hchild with hchild | hnew
          · exact .inl ⟨n, hn, .inl hchild⟩
          · exact .inr ⟨hap, List.mem_singleton.1 hnew⟩
        next => exact .inl ⟨n, hn, .inl hchild⟩
      · exact .inl ⟨n, hn, .inr hshown⟩
  · rintro (⟨n, hn, hb⟩ | ⟨rfl, rfl⟩)
    · refine ⟨_, node?_plant_of_node? hs.valid hfits hn, hb.imp_left fun hchild => ?_⟩
      dsimp only
      split
      · exact List.mem_append_left _ hchild
      · exact hchild
    · refine ⟨_, node?_plant_of_node? hs.valid hfits hp, .inl ?_⟩
      dsimp only
      rw [if_pos rfl]
      exact List.mem_append_right _ (List.mem_singleton_self _)

theorem acyclic_insertChild (h : Acyclic s.Leads) : Acyclic (s.insertChild p kind).2.Leads := by
  have hne : p ≠ s.nextId p kind := (nextId_ne hs.valid hfits hp).symm
  exact h.of_edge (fun a b => (leads_insertChild_iff hs hfits hp hsource).1)
    (not_reaches_nextId hs hfits hne).2

/-- What leads to a new node leads to its parent. -/
theorem reaches_insertChild_iff (hne : a ≠ s.nextId p kind) :
    (s.insertChild p kind).2.Reaches a (s.nextId p kind) ↔ s.Reaches a p := by
  have hleads : ∀ a b, (s.insertChild p kind).2.Leads a b ↔
      s.Leads a b ∨ a = p ∧ b = s.nextId p kind := fun a b =>
    leads_insertChild_iff hs hfits hp hsource
  constructor
  · intro hway
    rcases Acyclic.cases_of_edge (fun a b => (hleads a b).1) hway with hway | ⟨hway, -⟩
    · exact absurd hway (not_reaches_nextId hs hfits hne).1
    · exact hway
  · intro hway
    have hway' : (s.insertChild p kind).2.Reaches a p :=
      ReflTransGen.mono (fun a b hab => (hleads a b).2 (.inl hab)) _ _ hway
    exact hway'.tail ((hleads p _).2 (.inr ⟨rfl, rfl⟩))

end

end Scene

/-! ## Commands -/

variable {R ω : Type} [Scalar R]

/-- The command links a clone to a node that leads to it, and is not refused. -/
def Command.Closes (s : Scene R) : Command R ω → Prop
  | edit (.linkClone clone source) =>
    (∃ s', s.linkClone clone source = .ok s') ∧ s.Reaches source clone
  | addChild parent kind =>
    ∃ id source, (s.addChild parent kind).result = .ok id ∧ kind.source? = some source ∧
      s.Reaches source parent
  | _ => False

namespace Scene

open Command (Closes)

variable {s s' : Scene R} {p : NodeId} {kind : Kind R}

/-- How adding a node goes. -/
inductive Adds (s : Scene R) (p : NodeId) (kind : Kind R) : Addition R → Prop where
  | refused (e : SceneError) : Adds s p kind ⟨.error e, s, []⟩
  | inserted {m : Node R} (hp : s.node? p = some m) (hsource : kind.source? = none) :
      Adds s p kind ⟨.ok (s.nextId p (unlinked kind)), (s.insertChild p (unlinked kind)).2, []⟩
  | linked {m : Node R} {s' : Scene R} {source : NodeId} (hp : s.node? p = some m)
      (hsource : kind.source? = some source)
      (hlink : (s.insertChild p (unlinked kind)).2.linkClone (s.nextId p (unlinked kind)) source =
        .ok s') : Adds s p kind ⟨.ok (s.nextId p (unlinked kind)), s', []⟩
  | takenBack {m : Node R} {s' : Scene R} {freed : List NodeId} (e : SceneError)
      (hp : s.node? p = some m) (hstays : Stays (s.insertChild p (unlinked kind)).2 s')
      (hloose : Loosens (s.insertChild p (unlinked kind)).2 s') :
      Adds s p kind ⟨.error e, s', freed⟩

/-- What adding a node adds is one child, and what the node shows if it is a clone. -/
theorem adds_addChild (s : Scene R) (p : NodeId) (kind : Kind R) :
    Adds s p kind (s.addChild p kind) := by
  rw [addChild]
  cases hp : s.node? p with
  | none => exact .refused _
  | some m =>
    dsimp only
    split
    · cases hsource : kind.source? with
      | none => exact .inserted hp hsource
      | some source =>
        dsimp only
        split
        next s' hlink => exact .linked hp hsource hlink
        next e _ =>
          rw [takeBack]
          split
          next s' freed hremove =>
            exact .takenBack e hp (stays_remove hremove) (.remove hremove)
          next => exact .takenBack _ hp (.refl _) (.refl _)
    · exact .refused _

/-- A node that is added closes a cycle only if it is a clone of what leads to its group. -/
theorem acyclic_addChild (hs : s.Sound) (hfits : (s.addChild p kind).scene.nodes.Fits)
    (h : Acyclic s.Leads) (hopen : ¬Closes s (.addChild p kind : Command R ω)) :
    Acyclic (s.addChild p kind).scene.Leads := by
  have hunlinked := source?_unlinked kind
  have hadds := adds_addChild s p kind
  simp only [Closes, not_exists, not_and] at hopen
  generalize s.addChild p kind = added at hfits hopen hadds ⊢
  cases hadds with
  | refused e => exact h
  | inserted hp _ =>
    exact acyclic_insertChild hs ((stays_insertChild s p _).fits hfits) hp hunlinked h
  | @linked m s' source hp hsource hlink =>
    have hrev := (revised_linkClone hlink).revised
    have hfits' := (stays_insertChild s p _).fits (hrev.stays.fits hfits)
    obtain ⟨-, -, hne, -⟩ := eq_of_linkClone hlink
    refine acyclic_linkClone (acyclic_insertChild hs hfits' hp hunlinked h) hlink fun hway => ?_
    exact hopen _ source rfl hsource
      ((reaches_insertChild_iff hs hfits' hp hunlinked hne).1 hway)
  | takenBack e hp hstays hloose =>
    have hfits' := (stays_insertChild s p _).fits (hstays.fits hfits)
    exact (acyclic_insertChild hs hfits' hp hunlinked h).mono hloose

/-- If it is, there is a cycle: from the group to the clone, to its source and back. -/
theorem not_acyclic_addChild (hs : s.Sound) (hfits : (s.addChild p kind).scene.nodes.Fits)
    (hcloses : Closes s (.addChild p kind : Command R ω)) :
    ¬Acyclic (s.addChild p kind).scene.Leads := by
  obtain ⟨id, source, hresult, hsource, hway⟩ := hcloses
  have hadds := adds_addChild s p kind
  generalize s.addChild p kind = added at hfits hresult hadds ⊢
  cases hadds with
  | refused e | takenBack e _ _ _ => cases hresult
  | inserted hp hnone =>
    rw [hsource] at hnone
    cases hnone
  | @linked m s' source' hp hsource' hlink =>
    rw [hsource] at hsource'
    cases hsource'
    have hrev := (revised_linkClone hlink).revised
    have hfits' := (stays_insertChild s p _).fits (hrev.stays.fits hfits)
    obtain ⟨-, -, hne, -⟩ := eq_of_linkClone hlink
    exact not_acyclic_linkClone hlink
      ((reaches_insertChild_iff hs hfits' hp (source?_unlinked kind) hne).2 hway)

end Scene

namespace Command

open Scene

variable {s : Scene R} {command : Command R ω}

/-- A command that closes no cycle leaves none. -/
theorem acyclic_effect (hs : s.Sound) (hfits : (command.effect s).nodes.Fits)
    (h : Acyclic s.Leads) (hopen : ¬command.Closes s) : Acyclic (command.effect s).Leads := by
  cases command with
  | edit e =>
    simp only [effect]
    cases he : e.apply s with
    | error e => exact h
    | ok s' =>
      rcases loosens_apply e he with hloose | ⟨clone, source, rfl⟩
      · exact h.mono hloose
      · exact acyclic_linkClone h he fun hway => hopen ⟨⟨s', he⟩, hway⟩
  | addChild parent kind => exact acyclic_addChild hs hfits h hopen
  | remove id =>
    simp only [effect]
    cases hrem : s.remove id with
    | error e => exact h
    | ok result => exact h.mono (Loosens.remove hrem)
  | takeDamage | settle | runPending | addObserver | removeObserver _ | record _ => exact h

/-- A command that closes a cycle leaves one. -/
theorem not_acyclic_effect (hs : s.Sound) (hfits : (command.effect s).nodes.Fits)
    (hcloses : command.Closes s) : ¬Acyclic (command.effect s).Leads := by
  cases command with
  | edit e =>
    cases e with
    | linkClone clone source =>
      obtain ⟨⟨s', hlink⟩, hway⟩ := hcloses
      have heffect : (edit (.linkClone clone source) : Command R ω).effect s = s' := by
        simp only [effect, Edit.apply, hlink]
      rw [heffect]
      exact not_acyclic_linkClone hlink hway
    | setPath | setTransform | setHidden | setLocked | setStyle | unlinkClone | setFillServer
      | setStrokeServer | requestUpdate => exact hcloses.elim
  | addChild parent kind => exact not_acyclic_addChild hs hfits hcloses
  | remove | takeDamage | settle | runPending | addObserver | removeObserver | record =>
    exact hcloses.elim

end Command

/-! ## Runs -/

namespace Scene

/-- What was noted that closes a cycle left one, and without such a link there is none. -/
structure Linkable (x : Scene R × Journal R ω) : Prop where
  closes : ∀ ⦃command before after⦄, .ended command before after none ∈ x.2 →
    command.Closes before → ¬Acyclic after.Leads
  acyclic : (∀ command before after, .ended command before after none ∈ x.2 →
    ¬command.Closes before) → Acyclic x.1.Leads

theorem acyclic_new (maxPasses : Nat) : Acyclic (new maxPasses : Scene R).Leads := by
  intro id hcycle
  obtain ⟨b, ⟨n, hn, hb⟩, -⟩ := Relation.TransGen.head'_iff.1 hcycle
  rw [(eq_of_node?_new hn).2] at hb
  simp [Node.ofKind, Kind.source?] at hb

theorem linkable_new (maxPasses : Nat) :
    Linkable ((new maxPasses, []) : Scene R × Journal R ω) :=
  ⟨fun _ _ _ h => absurd h List.not_mem_nil, fun _ => acyclic_new maxPasses⟩

namespace Linkable

variable {x y : Scene R × Journal R ω} {s s' : Scene R} {J J' : Journal R ω}

/-- Ways are taken away, and nothing is noted but beginnings and updates. -/
theorem of_loosens (h : Linkable (s, J)) (hloose : Loosens s s')
    (hmore : ∀ ⦃command before after⦄, .ended command before after none ∈ J' →
      .ended command before after none ∈ J)
    (hkept : J ⊆ J') : Linkable (s', J') := by
  refine ⟨fun command before after hin => h.closes (hmore hin),
    fun hopen => (h.acyclic ?_).mono hloose⟩
  exact fun command before after hin => hopen command before after (hkept hin)

/-- Moves keep account of cycles.  Only those that end a command let something lead to more than
before. -/
theorem move (h : Linkable x) (hmove : Move x y) (hs : x.1.Sound) (hfits : y.1.nodes.Fits) :
    Linkable y := by
  have hnodes : ∀ {s s' : Scene R}, s'.nodes = s.nodes → Loosens s s' := fun hnodes =>
    .of_agree (.of_node?_eq fun id => by rw [node?, node?, hnodes])
  cases hmove with
  | began command =>
    exact h.of_loosens (.refl _) (fun _ _ _ hin => by simpa using hin)
      (List.subset_append_left _ _)
  | marked id flags => exact h.of_loosens (.touch _ id flags) (fun _ _ _ hin => hin) (.refl _)
  | recomputed =>
    exact h.of_loosens (.of_agree (agree_updatePass (fun _ _ _ _ _ _ => rfl) _))
      (fun _ _ _ hin => hin) (.refl _)
  | hushed id =>
    exact h.of_loosens (.of_agree (agree_hush (fun _ _ => rfl) _ id)) (fun _ _ _ hin => hin)
      (.refl _)
  | counted => exact h.of_loosens (hnodes rfl) (fun _ _ _ hin => hin) (.refl _)
  | @ended s J command =>
    refine ⟨fun command' before after hin hcloses => ?_, fun hopen => ?_⟩
    · rcases List.mem_append.1 hin with hin | hin
      · exact h.closes hin hcloses
      · cases List.mem_singleton.1 hin
        exact command.not_acyclic_effect hs hfits hcloses
    · have hold := h.acyclic fun command before after hin =>
        hopen command before after (List.mem_append_left _ hin)
      exact command.acyclic_effect hs hfits hold
        (hopen command s _ (List.mem_append_right _ (List.mem_singleton_self _)))
  | settled | abandoned =>
    exact h.of_loosens (hnodes rfl) (fun _ _ _ hin => by simpa using hin)
      (List.subset_append_left _ _)

end Linkable

theorem Course.linkable {x y : Scene R × Journal R ω} (h : Course x y) (hfits : y.1.nodes.Fits)
    (hs : x.1.Sound) (hx : Linkable x) : Linkable y :=
  (h.induct hfits hs hx fun _ _ hmove hs _ hfits hy => hy.move hmove hs hfits).2

/-- All scenes noted are free of cycles exactly if none of the links noted closes one. -/
theorem Course.acyclic_iff {maxPasses : Nat} {y : Scene R × Journal R ω}
    (h : Course (new maxPasses, []) y) (hfits : y.1.nodes.Fits) :
    (∀ e ∈ y.2, Acyclic e.scene.Leads) ↔
      ∀ command before after, .ended command before after none ∈ y.2 → ¬command.Closes before := by
  constructor
  · intro hacyclic command before after hin hcloses
    exact (h.linkable hfits (sound_new maxPasses) (linkable_new maxPasses)).closes hin hcloses
      (hacyclic _ hin)
  · intro hopen e he
    obtain ⟨pre, post, hJ⟩ := List.append_of_mem he
    obtain ⟨hto, hfrom⟩ := h.upTo rfl hJ
    have hthere := hto.linkable (Nat.le_trans hfrom.slots hfits) (sound_new maxPasses)
      (linkable_new maxPasses)
    refine hthere.acyclic fun command before after hin => hopen command before after ?_
    rw [hJ, List.append_cons pre e post]
    exact List.mem_append_left post hin

end Scene

end Freehand
