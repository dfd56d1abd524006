import Freehand.Proofs.Scene.Removal

/-!
# Links between nodes

A reference is stored three times: in what the owner holds, in the owner's list of references, and
in the target's list of subscribers.  `Scene.Wired` relates the two lists to each other and to any
table of what owners are to hold, and `Scene.Linked` takes what they do hold for that table.

* An edit of a reference rewires the lists first and stores the value afterwards.  In between the
  scene is wired for the table with one entry replaced (`Wired.setReference`).
* Freeing a node takes exactly the links from it and to it away (`Linked.release`), in whatever
  order the nodes of a subtree are freed.
-/

namespace Freehand

/-- The node that a node holds in a role. -/
def Node.held {R : Type} (n : Node R) : Role → Option NodeId
  | .cloneSource => n.kind.source?
  | .fillServer => n.style.fill.server?
  | .strokeServer => n.style.stroke.server?

/-- What links look at in a node, but for what the node holds. -/
def Node.links {R : Type} (n : Node R) : List Link × List Link × Bool :=
  (n.references, n.subscribers, n.kind.isGradient)

theorem Link.eq_mk_iff {l : Link} {id : NodeId} {r : Role} :
    l = ⟨id, r⟩ ↔ l.node = id ∧ l.role = r := by
  cases l
  simp

namespace Scene

variable {R β : Type} {s s' : Scene R} {id o t j : NodeId} {r : Role} {n m : Node R}

/-- The node `t` can be referenced by `o` in a role: it is of the right kind, and not above `o`. -/
structure Admits (s : Scene R) (o : NodeId) (r : Role) (t : NodeId) : Prop where
  target : ∃ m, s.node? t = some m ∧ (m.kind.isGradient = true ↔ r ≠ .cloneSource)
  apart : ¬s.Above t o

/-- The links of a scene are the same at both ends and in the table `holds`. -/
structure Wired (s : Scene R) (holds : NodeId → Role → Option NodeId) : Prop where
  nodup_references : ∀ ⦃o n⦄, s.node? o = some n → n.references.Nodup
  nodup_subscribers : ∀ ⦃t m⦄, s.node? t = some m → m.subscribers.Nodup
  /-- A node references what the table lists for it. -/
  holds_iff : ∀ ⦃o n⦄, s.node? o = some n → ∀ t r, holds o r = some t ↔ ⟨t, r⟩ ∈ n.references
  /-- The subscribers of a node are those for which the table lists it. -/
  mem_subscribers : ∀ ⦃t m⦄, s.node? t = some m → ∀ o r,
    ⟨o, r⟩ ∈ m.subscribers ↔ (∃ n, s.node? o = some n) ∧ holds o r = some t
  /-- What the table lists can be referenced. -/
  admits : ∀ ⦃o n⦄, s.node? o = some n → ∀ t r, holds o r = some t → s.Admits o r t

/-- What a node holds in a role. -/
def held? (s : Scene R) (o : NodeId) (r : Role) : Option NodeId :=
  (s.node? o).bind fun n => n.held r

/-- Nodes hold what they reference, and the links are the same at both ends. -/
def Linked (s : Scene R) : Prop :=
  s.Wired s.held?

theorem held?_of_node? (hn : s.node? o = some n) : s.held? o r = n.held r := by
  rw [held?, hn, Option.bind_some]

/-- Nodes that stay can be referenced as before. -/
theorem Admits.congr (h : s.Admits o r t)
    (hgradient : ∀ m, s.node? t = some m →
      ∃ m', s'.node? t = some m' ∧ m'.kind.isGradient = m.kind.isGradient)
    (hparent : ∀ c p, s'.parent? c = some p → s.parent? c = some p) : s'.Admits o r t := by
  obtain ⟨⟨m, hm, hrole⟩, hapart⟩ := h
  obtain ⟨m', hm', hsame⟩ := hgradient m hm
  exact ⟨⟨m', hm', by rw [hsame]; exact hrole⟩, fun hup => hapart (hup.mono hparent)⟩

namespace Wired

variable {holds holds' : NodeId → Role → Option NodeId}

/-- A node has at most one reference of a role. -/
theorem nodup_roles (h : s.Wired holds) (hn : s.node? o = some n) :
    (n.references.map Link.role).Nodup := by
  refine (h.nodup_references hn).map_on fun k hk l hl hrole => ?_
  have hk' := (h.holds_iff hn k.node k.role).2 hk
  have hl' := (h.holds_iff hn l.node l.role).2 hl
  rw [hrole, hl'] at hk'
  cases k
  cases l
  simp_all

/-- The target of a reference knows its owner. -/
theorem subscribed (h : s.Wired holds) (hn : s.node? o = some n) (href : ⟨t, r⟩ ∈ n.references) :
    s.Admits o r t ∧ ∀ m, s.node? t = some m → ⟨o, r⟩ ∈ m.subscribers := by
  have hheld := (h.holds_iff hn t r).2 href
  exact ⟨h.admits hn t r hheld, fun m hm => (h.mem_subscribers hm o r).2 ⟨⟨n, hn⟩, hheld⟩⟩

/-- A subscriber references the node. -/
theorem referenced (h : s.Wired holds) (hm : s.node? t = some m) (hsub : ⟨o, r⟩ ∈ m.subscribers) :
    ∃ n, s.node? o = some n ∧ ⟨t, r⟩ ∈ n.references := by
  obtain ⟨⟨n, hn⟩, hheld⟩ := (h.mem_subscribers hm o r).1 hsub
  exact ⟨n, hn, (h.holds_iff hn t r).1 hheld⟩

/-- The table matters at the nodes of the scene only. -/
theorem of_holds_eq (h : s.Wired holds)
    (heq : ∀ ⦃o n⦄, s.node? o = some n → ∀ r, holds' o r = holds o r) : s.Wired holds' := by
  refine ⟨h.nodup_references, h.nodup_subscribers, fun o n hn t r => ?_, fun t m hm o r => ?_,
    fun o n hn t r hheld => ?_⟩
  · rw [heq hn]
    exact h.holds_iff hn t r
  · rw [h.mem_subscribers hm]
    refine and_congr_right fun hlive => ?_
    obtain ⟨n, hn⟩ := hlive
    rw [heq hn]
  · rw [heq hn] at hheld
    exact h.admits hn t r hheld

/-- The links that a rule keeps are wired in the scene where the others are gone. -/
theorem restrict (h : s.Wired holds) (keep : NodeId → NodeId → Role → Bool)
    (hnode : ∀ ⦃j n'⦄, s'.node? j = some n' → ∃ n, s.node? j = some n ∧
      n'.kind.isGradient = n.kind.isGradient ∧
      (n'.references = n.references.filter fun l => keep j l.node l.role) ∧
      (n'.subscribers = n.subscribers.filter fun l => keep l.node j l.role) ∧
      ∀ r, holds' j r = (holds j r).filter fun t => keep j t r)
    (hlive : ∀ ⦃o t r⦄, keep o t r = true → ∀ ⦃j n⦄, j = o ∨ j = t → s.node? j = some n →
      ∃ n', s'.node? j = some n')
    (hparent : ∀ c p, s'.parent? c = some p → s.parent? c = some p) : s'.Wired holds' := by
  have hholds : ∀ {o n'}, s'.node? o = some n' → ∀ t r,
      holds' o r = some t ↔ holds o r = some t ∧ keep o t r = true := by
    intro o n' hn' t r
    obtain ⟨n, hn, -, -, -, heq⟩ := hnode hn'
    rw [heq, Option.filter_eq_some_iff]
  refine ⟨fun o n' hn' => ?_, fun t m' hm' => ?_, fun o n' hn' t r => ?_, fun t m' hm' o r => ?_,
    fun o n' hn' t r hheld => ?_⟩
  · obtain ⟨n, hn, -, hrefs, -⟩ := hnode hn'
    rw [hrefs]
    exact (h.nodup_references hn).filter _
  · obtain ⟨m, hm, -, -, hsubs, -⟩ := hnode hm'
    rw [hsubs]
    exact (h.nodup_subscribers hm).filter _
  · obtain ⟨n, hn, -, hrefs, -⟩ := hnode hn'
    rw [hholds hn', hrefs, List.mem_filter, h.holds_iff hn]
  · obtain ⟨m, hm, -, -, hsubs, -⟩ := hnode hm'
    rw [hsubs, List.mem_filter, h.mem_subscribers hm]
    constructor
    · rintro ⟨⟨⟨n, hn⟩, hheld⟩, hkeep⟩
      obtain ⟨n', hn'⟩ := hlive hkeep (.inl rfl) hn
      exact ⟨⟨n', hn'⟩, (hholds hn' t r).2 ⟨hheld, hkeep⟩⟩
    · rintro ⟨⟨n', hn'⟩, hheld⟩
      obtain ⟨hheld', hkeep⟩ := (hholds hn' t r).1 hheld
      obtain ⟨n, hn, -⟩ := hnode hn'
      exact ⟨⟨⟨n, hn⟩, hheld'⟩, hkeep⟩
  · obtain ⟨hheld', hkeep⟩ := (hholds hn' t r).1 hheld
    obtain ⟨n, hn, -⟩ := hnode hn'
    refine (h.admits hn t r hheld').congr (fun m hm => ?_) hparent
    obtain ⟨m', hm'⟩ := hlive hkeep (.inr rfl) hm
    obtain ⟨k, hk, hsame, -⟩ := hnode hm'
    rw [hm] at hk
    cases hk
    exact ⟨m', hm', hsame⟩

theorem of_agree (h : s.Wired holds) (hlinks : Agree Node.links s s')
    (hparent : ∀ c p, s'.parent? c = some p → s.parent? c = some p) : s'.Wired holds := by
  refine h.restrict (fun _ _ _ => true) (fun j n' hn' => ?_) (fun o t r _ j n _ hn => ?_) hparent
  · obtain ⟨n, hn, heq⟩ := hlinks.symm.node? hn'
    simp only [Node.links, Prod.mk.injEq] at heq
    obtain ⟨hrefs, hsubs, hgradient⟩ := heq
    refine ⟨n, hn, hgradient.symm, by simp [hrefs], by simp [hsubs], fun r => ?_⟩
    cases holds j r <;> rfl
  · obtain ⟨n', hn', -⟩ := hlinks.node? hn
    exact ⟨n', hn'⟩

end Wired

theorem Linked.of_agree (h : s.Linked) (hlinks : Agree (fun n => (n.links, n.held)) s s')
    (hparent : ∀ c p, s'.parent? c = some p → s.parent? c = some p) : s'.Linked := by
  refine Wired.of_holds_eq (Wired.of_agree h (hlinks.map Prod.fst) hparent) ?_
  intro o n' hn' r
  obtain ⟨n, hn, heq⟩ := hlinks.symm.node? hn'
  simp only [Prod.mk.injEq] at heq
  rw [held?_of_node? hn, held?_of_node? hn', heq.2]

/-! ## Rewiring one reference -/

/-- The table with one entry replaced. -/
def repoint (holds : NodeId → Role → Option NodeId) (o : NodeId) (r : Role)
    (target : Option NodeId) : NodeId → Role → Option NodeId :=
  fun o' r' => if o' = o ∧ r' = r then target else holds o' r'

theorem repoint_self (holds : NodeId → Role → Option NodeId) (o : NodeId) (r : Role) :
    repoint holds o r (holds o r) = holds := by
  funext o' r'
  rw [repoint]
  split
  next h => rw [h.1, h.2]
  next => rfl

theorem repoint_repoint (holds : NodeId → Role → Option NodeId) (o : NodeId) (r : Role)
    (a b : Option NodeId) : repoint (repoint holds o r a) o r b = repoint holds o r b := by
  funext o' r'
  simp only [repoint]
  split <;> rfl

theorem node?_unlink (s : Scene R) (o t : NodeId) (r : Role) (j : NodeId) :
    (s.unlink o t r).node? j = (s.node? j).map fun n =>
      { n with
        references := if j = o then n.references.filter fun l => l ≠ ⟨t, r⟩ else n.references
        subscribers := if j = t then n.subscribers.filter fun l => l ≠ ⟨o, r⟩
          else n.subscribers } := by
  rw [unlink, node?_modify, node?_modify]
  cases s.node? j with
  | none => simp
  | some n => split <;> split <;> rfl

theorem node?_link (s : Scene R) (o t : NodeId) (r : Role) (j : NodeId) :
    (s.link o t r).node? j = (s.node? j).map fun n =>
      { n with
        references := if j = o then n.references ++ [⟨t, r⟩] else n.references
        subscribers := if j = t then n.subscribers ++ [⟨o, r⟩] else n.subscribers } := by
  rw [link, node?_modify, node?_modify]
  cases s.node? j with
  | none => simp
  | some n => split <;> split <;> rfl

theorem node?_of_link {n' : Node R} (hn' : (s.link o t r).node? j = some n') :
    ∃ n, s.node? j = some n ∧
      n'.references = (if j = o then n.references ++ [⟨t, r⟩] else n.references) ∧
      n'.subscribers = (if j = t then n.subscribers ++ [⟨o, r⟩] else n.subscribers) := by
  rw [node?_link] at hn'
  obtain ⟨n, hn, rfl⟩ := Option.map_eq_some_iff.1 hn'
  exact ⟨n, hn, rfl, rfl⟩

/-- A part of a node that links do not reach. -/
def Unlinked (part : Node R → β) : Prop :=
  ∀ (n : Node R) (references subscribers : List Link),
    part { n with references, subscribers } = part n

theorem agree_unlink {part : Node R → β} (h : Unlinked part) (s : Scene R) (o t : NodeId)
    (r : Role) : Agree part s (s.unlink o t r) := by
  intro j
  rw [node?_unlink, Option.map_map]
  exact congrArg (fun f => (s.node? j).map f) (funext fun n => h n _ _)

theorem agree_link {part : Node R → β} (h : Unlinked part) (s : Scene R) (o t : NodeId)
    (r : Role) : Agree part s (s.link o t r) := by
  intro j
  rw [node?_link, Option.map_map]
  exact congrArg (fun f => (s.node? j).map f) (funext fun n => h n _ _)

/-- What removing a link keeps, clearing a reference keeps. -/
theorem relates_clearReference {rel : Scene R → Scene R → Prop} {o : NodeId} {r : Role}
    (hrefl : ∀ s, rel s s) (hunlink : ∀ s t, rel s (s.unlink o t r)) (s : Scene R) :
    rel s (s.clearReference o r) := by
  rw [clearReference]
  split
  · exact hunlink s _
  · exact hrefl s

/-- What removing a link and adding one keep, replacing a reference keeps. -/
theorem relates_setReference {rel : Scene R → Scene R → Prop} {o : NodeId} {r : Role}
    (hrefl : ∀ s, rel s s) (htrans : ∀ {s t u}, rel s t → rel t u → rel s u)
    (hunlink : ∀ s t, rel s (s.unlink o t r)) (hlink : ∀ s t, rel s (s.link o t r)) (s : Scene R)
    (target : Option NodeId) : rel s (s.setReference o r target) := by
  have hclear := relates_clearReference hrefl hunlink s
  rw [setReference.eq_def]
  split
  · exact hrefl s
  · cases target with
    | none => exact hclear
    | some t => exact htrans hclear (hlink _ t)

theorem agree_clearReference {part : Node R → β} (h : Unlinked part) (s : Scene R) (o : NodeId)
    (r : Role) : Agree part s (s.clearReference o r) :=
  relates_clearReference (.refl part) (fun s t => agree_unlink h s o t r) s

theorem agree_setReference {part : Node R → β} (h : Unlinked part) (s : Scene R) (o : NodeId)
    (r : Role) (target : Option NodeId) : Agree part s (s.setReference o r target) :=
  relates_setReference (.refl part) .trans (fun s t => agree_unlink h s o t r)
    (fun s t => agree_link h s o t r) s target

theorem stays_setReference (s : Scene R) (o : NodeId) (r : Role) (target : Option NodeId) :
    Stays s (s.setReference o r target) :=
  relates_setReference .refl .trans (fun s t => stays_unlink s o t r)
    (fun s t => (stays_modify s t _).trans (stays_modify _ o _)) s target

theorem nodesOnly_unlink (s : Scene R) (o t : NodeId) (r : Role) :
    NodesOnly s (s.unlink o t r) :=
  (nodesOnly_modify s t _).trans (nodesOnly_modify _ o _)

theorem nodesOnly_setReference (s : Scene R) (o : NodeId) (r : Role) (target : Option NodeId) :
    NodesOnly s (s.setReference o r target) :=
  relates_setReference .refl .trans (fun s t => nodesOnly_unlink s o t r)
    (fun s t => (nodesOnly_modify s t _).trans (nodesOnly_modify _ o _)) s target

theorem Admits.of_agree (h : s.Admits o r t)
    (hagree : Agree (fun n => (n.parent, n.kind.isGradient)) s s') : s'.Admits o r t := by
  refine h.congr (fun m hm => ?_) fun c p hp => ?_
  · obtain ⟨m', hm', heq⟩ := hagree.node? hm
    exact ⟨m', hm', congrArg Prod.snd heq⟩
  · rwa [parent?_eq_of_agree (hagree.map Prod.fst)] at hp

namespace Wired

variable {holds : NodeId → Role → Option NodeId}

/-- The target that is found for a role is the one in the table. -/
theorem target?_eq (h : s.Wired holds) (hn : s.node? o = some n) (r : Role) :
    s.target? o r = holds o r := by
  rw [target?, hn, Option.bind_some]
  cases hfind : n.references.find? fun l => l.role = r with
  | none =>
    cases hholds : holds o r with
    | none => rfl
    | some t =>
      have := List.find?_eq_none.1 hfind _ ((h.holds_iff hn t r).1 hholds)
      simp at this
  | some l =>
    have hrole : l.role = r := by simpa using List.find?_some hfind
    have hl : ⟨l.node, r⟩ ∈ n.references := by
      rw [← hrole]
      exact List.mem_of_find?_eq_some hfind
    exact ((h.holds_iff hn l.node r).2 hl).symm

/-- Taking a link off both of its ends takes it out of the table. -/
theorem unlink (h : s.Wired holds) (hholds : holds o r = some t) :
    (s.unlink o t r).Wired (repoint holds o r none) := by
  refine h.restrict (fun o' t' r' => !decide (o' = o ∧ t' = t ∧ r' = r)) (fun j n' hn' => ?_)
    (fun o' t' r' _ j n _ hn => ?_) fun c p hp => ?_
  · rw [node?_unlink] at hn'
    obtain ⟨n, hn, rfl⟩ := Option.map_eq_some_iff.1 hn'
    refine ⟨n, hn, rfl, ?_, ?_, fun r' => ?_⟩
    · by_cases hj : j = o <;> simp [hj, Link.eq_mk_iff]
    · by_cases hj : j = t <;> simp [hj, Link.eq_mk_iff]
    · unfold repoint
      split
      next heq =>
        rw [heq.1, heq.2, hholds, Option.filter_some]
        simp
      next hne =>
        have hkeep : ∀ t', (!decide (j = o ∧ t' = t ∧ r' = r)) = true := by
          intro t'
          simp only [Bool.not_eq_true', decide_eq_false_iff_not]
          exact fun heq => hne ⟨heq.1, heq.2.2⟩
        cases hheld : holds j r' with
        | none => rfl
        | some t' => rw [Option.filter_some, if_pos (hkeep t')]
  · rw [node?_unlink, hn]
    exact ⟨_, rfl⟩
  · rwa [parent?_eq_of_agree (agree_unlink (fun _ _ _ => rfl) s o t r)] at hp

/-! ### A new reference of a role in which the owner had none -/

section Link

variable (h : s.Wired holds) (hholds : holds o r = none) {j : NodeId} {n' : Node R}
include h hholds

theorem nodup_references_link (hn' : (s.link o t r).node? j = some n') : n'.references.Nodup := by
  obtain ⟨k, hk, hrefs, -⟩ := node?_of_link hn'
  have hnodup := h.nodup_references hk
  rw [hrefs]
  split
  next hj =>
    subst hj
    have hnot : ⟨t, r⟩ ∉ k.references := by
      rw [← h.holds_iff hk, hholds]
      exact nofun
    exact hnodup.append (List.nodup_singleton _) (by simpa using hnot)
  next => exact hnodup

theorem nodup_subscribers_link (hn' : (s.link o t r).node? j = some n') :
    n'.subscribers.Nodup := by
  obtain ⟨k, hk, -, hsubs⟩ := node?_of_link hn'
  have hnodup := h.nodup_subscribers hk
  have hnot : ⟨o, r⟩ ∉ k.subscribers := by
    rw [h.mem_subscribers hk, hholds]
    exact fun hand => nomatch hand.2
  rw [hsubs]
  split
  · exact hnodup.append (List.nodup_singleton _) (by simpa using hnot)
  · exact hnodup

theorem holds_iff_link (hn' : (s.link o t r).node? j = some n') (t' : NodeId) (r' : Role) :
    repoint holds o r (some t) j r' = some t' ↔ ⟨t', r'⟩ ∈ n'.references := by
  obtain ⟨k, hk, hrefs, -⟩ := node?_of_link hn'
  have hiff := h.holds_iff hk t' r'
  rw [hrefs, repoint]
  by_cases hj : j = o
  · by_cases hr : r' = r
    · rw [hj, hr, hholds] at hiff
      have hnot : ⟨t', r⟩ ∉ k.references := fun hin => nomatch hiff.2 hin
      simp [hj, hr, hnot, eq_comm]
    · simp [hj, hr, ← hiff]
  · simp [hj, hiff]

/-- The subscribers of a node after a link was added are those for which the new table lists it. -/
theorem mem_subscribers_link (hn : s.node? o = some n)
    (hn' : (s.link o t r).node? j = some n') (o' : NodeId) (r' : Role) :
    ⟨o', r'⟩ ∈ n'.subscribers ↔
      (∃ m, s.node? o' = some m) ∧ repoint holds o r (some t) o' r' = some j := by
  obtain ⟨k, hk, -, hsubs⟩ := node?_of_link hn'
  have hiff := h.mem_subscribers hk o' r'
  rw [hsubs, repoint]
  by_cases hown : o' = o ∧ r' = r
  · obtain ⟨rfl, rfl⟩ := hown
    rw [hholds] at hiff
    have hnot : ⟨o', r'⟩ ∉ k.subscribers := fun hin => nomatch (hiff.1 hin).2
    by_cases hj : j = t
    · simp [hj, hn]
    · simp [hj, hnot, Ne.symm hj]
  · rw [if_neg hown, ← hiff]
    split <;> simp [hown]

end Link

/-- Adding a link to both of its ends puts it into the table, where the role was free. -/
theorem link (h : s.Wired holds) (hn : s.node? o = some n) (hholds : holds o r = none)
    (hadmits : s.Admits o r t) : (s.link o t r).Wired (repoint holds o r (some t)) := by
  refine ⟨fun j n' => h.nodup_references_link hholds, fun j n' => h.nodup_subscribers_link hholds,
    fun j n' => h.holds_iff_link hholds, fun j n' hn' o' r' => ?_, fun j n' hn' t' r' hheld => ?_⟩
  · have hlive : (∃ m, (s.link o t r).node? o' = some m) ↔ ∃ m, s.node? o' = some m := by
      rw [node?_link]
      simp
    rw [hlive]
    exact h.mem_subscribers_link hholds hn hn' o' r'
  · obtain ⟨k, hk, -⟩ := node?_of_link hn'
    have hagree : Agree (fun n => (n.parent, n.kind.isGradient)) s (s.link o t r) :=
      agree_link (fun _ _ _ => rfl) s o t r
    rw [repoint] at hheld
    split at hheld
    next heq =>
      cases hheld
      rw [heq.1, heq.2]
      exact hadmits.of_agree hagree
    next => exact (h.admits hk t' r' hheld).of_agree hagree

theorem clearReference (h : s.Wired holds) (hn : s.node? o = some n) :
    (s.clearReference o r).Wired (repoint holds o r none) := by
  rw [Scene.clearReference, h.target?_eq hn]
  cases hold : holds o r with
  | none =>
    have hsame : repoint holds o r none = holds := by rw [← hold, repoint_self]
    rw [hsame]
    exact h
  | some old => exact h.unlink hold

/-- Replacing a reference replaces the entry of the table, and nothing else. -/
theorem setReference (h : s.Wired holds) (hn : s.node? o = some n) {target : Option NodeId}
    (hadmits : ∀ t, target = some t → s.Admits o r t) :
    (s.setReference o r target).Wired (repoint holds o r target) := by
  rw [Scene.setReference.eq_def, h.target?_eq hn]
  split
  next heq =>
    rw [← heq, repoint_self]
    exact h
  next =>
    cases target with
    | none => exact h.clearReference hn
    | some t =>
      have hstays : Agree Node.parent s (s.clearReference o r) :=
        agree_clearReference (fun _ _ _ => rfl) s o r
      obtain ⟨k, hk, -⟩ := hstays.node? hn
      have hadmits' : (s.clearReference o r).Admits o r t :=
        (hadmits t rfl).of_agree (agree_clearReference (fun _ _ _ => rfl) s o r)
      rw [← repoint_repoint holds o r none]
      exact (h.clearReference hn).link hk (if_pos ⟨rfl, rfl⟩) hadmits'

end Wired

end Scene

end Freehand
