import Freehand.Proofs.Scene.Course
import Freehand.Proofs.Scene.Exact
import Freehand.Proofs.Scalar.Order

/-!
# Placements up to equality of numbers

A pass compares numbers with `==`, which on floating point takes the two zeros for equal, and what
is no number for different from itself.  Two numbers are *alike* if they are equal in this sense or
none of them is a number.

In a *poised* scene what is not stale has the placement and the opacity that its parent hands down,
up to likeness.  Every change keeps a scene poised, whatever observers do (`Course.poised`).  A pass
over a poised scene leaves an *aligned* one, where this holds of all nodes, and a pass over an
aligned scene of numbers hands nothing down: it visits stale nodes only (`Aligned.stale_of_visit`).
-/

namespace Freehand

variable {R ω : Type} [Scalar R]

/-! ## Likeness -/

namespace Scalar.Alike

variable {a b c : R}

theorem refl (a : R) : Alike a a := by
  cases h : a == a with
  | true => exact .inl h
  | false => exact .inr ⟨h, h⟩

theorem symm (hlaw : Steady R) (h : Alike a b) : Alike b a := by
  rcases h with h | ⟨ha, hb⟩
  · exact .inl (hlaw.symm a b h)
  · exact .inr ⟨hb, ha⟩

theorem trans (hlaw : Steady R) (h : Alike a b) (h' : Alike b c) : Alike a c := by
  have hself : ∀ {x y : R}, (x == y) = true → (x == x) = true ∧ (y == y) = true := fun hxy =>
    ⟨hlaw.trans _ _ _ hxy (hlaw.symm _ _ hxy), hlaw.trans _ _ _ (hlaw.symm _ _ hxy) hxy⟩
  rcases h with h | ⟨ha, hb⟩
  · rcases h' with h' | ⟨hb, -⟩
    · exact .inl (hlaw.trans a b c h h')
    · rw [(hself h).2] at hb
      cases hb
  · rcases h' with h' | ⟨-, hc⟩
    · rw [(hself h').1] at hb
      cases hb
    · exact .inr ⟨ha, hc⟩

/-- What is like a number is equal to it. -/
theorem eq_of_number (h : Alike a b) (hb : (b == b) = true) : (a == b) = true := by
  rcases h with h | ⟨-, hnone⟩
  · exact h
  · rw [hb] at hnone
    cases hnone

end Scalar.Alike

theorem Affine.beq_iff {m n : Affine R} : (m == n) = true ↔ (m.a == n.a) = true ∧
    (m.b == n.b) = true ∧ (m.c == n.c) = true ∧ (m.d == n.d) = true ∧ (m.e == n.e) = true ∧
    (m.f == n.f) = true := by
  cases m
  cases n
  simp only [BEq.beq, instBEqAffine.beq, Bool.and_eq_true]

namespace Affine.Alike

open Scalar (Steady)

variable {m n k m' n' : Affine R}

theorem refl (m : Affine R) : Alike m m :=
  ⟨.refl _, .refl _, .refl _, .refl _, .refl _, .refl _⟩

theorem symm (hlaw : Steady R) (h : Alike m n) : Alike n m :=
  ⟨h.a.symm hlaw, h.b.symm hlaw, h.c.symm hlaw, h.d.symm hlaw, h.e.symm hlaw, h.f.symm hlaw⟩

theorem trans (hlaw : Steady R) (h : Alike m n) (h' : Alike n k) : Alike m k :=
  ⟨h.a.trans hlaw h'.a, h.b.trans hlaw h'.b, h.c.trans hlaw h'.c, h.d.trans hlaw h'.d,
    h.e.trans hlaw h'.e, h.f.trans hlaw h'.f⟩

theorem of_beq (h : (m == n) = true) : Alike m n := by
  obtain ⟨ha, hb, hc, hd, he, hf⟩ := beq_iff.1 h
  exact ⟨.inl ha, .inl hb, .inl hc, .inl hd, .inl he, .inl hf⟩

theorem eq_of_numbers (h : Alike m n) (hn : (n == n) = true) : (m == n) = true := by
  obtain ⟨ha, hb, hc, hd, he, hf⟩ := beq_iff.1 hn
  exact beq_iff.2 ⟨h.a.eq_of_number ha, h.b.eq_of_number hb, h.c.eq_of_number hc,
    h.d.eq_of_number hd, h.e.eq_of_number he, h.f.eq_of_number hf⟩

/-- Products of maps that are alike are alike. -/
theorem mul (hlaw : Steady R) (h : Alike m m') (h' : Alike n n') : Alike (m * n) (m' * n') where
  a := hlaw.add _ _ _ _ (hlaw.mul _ _ _ _ h.a h'.a) (hlaw.mul _ _ _ _ h.c h'.b)
  b := hlaw.add _ _ _ _ (hlaw.mul _ _ _ _ h.b h'.a) (hlaw.mul _ _ _ _ h.d h'.b)
  c := hlaw.add _ _ _ _ (hlaw.mul _ _ _ _ h.a h'.c) (hlaw.mul _ _ _ _ h.c h'.d)
  d := hlaw.add _ _ _ _ (hlaw.mul _ _ _ _ h.b h'.c) (hlaw.mul _ _ _ _ h.d h'.d)
  e := hlaw.add _ _ _ _ (hlaw.add _ _ _ _ (hlaw.mul _ _ _ _ h.a h'.e)
    (hlaw.mul _ _ _ _ h.c h'.f)) h.e
  f := hlaw.add _ _ _ _ (hlaw.add _ _ _ _ (hlaw.mul _ _ _ _ h.b h'.e)
    (hlaw.mul _ _ _ _ h.d h'.f)) h.f

end Affine.Alike

namespace Scene

open Scalar (Steady)

variable {s s' : Scene R} {id j p : NodeId} {n m : Node R} {i : Inherited R}

/-! ## Poised scenes -/

/-- The node has the placement and the opacity that its parent hands down, up to likeness. -/
structure Fitting (s : Scene R) (n : Node R) : Prop where
  world : n.world.Alike (s.worldAbove n * n.transform)
  opacity : Scalar.Alike n.opacity (s.opacityAbove n * n.style.opacity)

/-- What is not stale is placed as its parent hands down. -/
def Poised (s : Scene R) : Prop :=
  ∀ ⦃id n⦄, s.node? id = some n → n.stale = ∅ → s.Fitting n

/-- Every node is placed as its parent hands down. -/
def Aligned (s : Scene R) : Prop :=
  ∀ ⦃id n⦄, s.node? id = some n → s.Fitting n

theorem Aligned.poised (h : s.Aligned) : s.Poised :=
  fun _ _ hn _ => h hn

/-- Nodes that keep what was set of them and their caches fit as before. -/
theorem Fitting.congr {n' : Node R} (h : s.Fitting n) (hs : s.Tree) (hs' : s'.Tree)
    (hcaches : ∀ ⦃id n n'⦄, s.node? id = some n → s'.node? id = some n' → n'.caches = n.caches)
    (hn : s.node? id = some n) (hn' : s'.node? id = some n') (hraw : n'.raw = n.raw) :
    s'.Fitting n' := by
  have hkept := hcaches hn hn'
  simp only [Node.raw, Node.caches, Prod.mk.injEq] at hraw hkept
  obtain ⟨-, htransform, -, hstyle, hparent, -⟩ := hraw
  obtain ⟨hworld, hopacity⟩ := above_eq_of_caches hs hs' hcaches hn hn' hparent
  refine ⟨?_, ?_⟩
  · rw [hkept.1, hworld, htransform]
    exact h.world
  · rw [hkept.2.2, hopacity, hstyle]
    exact h.opacity

theorem Poised.of_edited (h : s.Poised) (hs : s.Sound) (hs' : s'.Sound) (hedit : Edited s s') :
    s'.Poised := by
  intro id n' hn' hstale
  obtain ⟨n, hn, hstale', hraw, -⟩ := hedit.node? hn' hstale
  exact (h hn hstale').congr hs.tree hs'.tree hedit.caches hn hn' hraw

theorem Aligned.of_agree (h : s.Aligned) (hs : s.Tree) (hs' : s'.Tree)
    (hagree : Agree (fun n => (n.raw, n.caches)) s s') : s'.Aligned := by
  have hcaches : ∀ ⦃id n n'⦄, s.node? id = some n → s'.node? id = some n' →
      n'.raw = n.raw ∧ n'.caches = n.caches := by
    intro id n n' hn hn'
    have heq := hagree.part_eq hn hn'
    exact ⟨congrArg Prod.fst heq, congrArg Prod.snd heq⟩
  intro id n' hn'
  obtain ⟨n, hn, -⟩ := hagree.symm.node? hn'
  exact (h hn).congr hs hs' (fun _ _ _ hn hn' => (hcaches hn hn').2) hn hn' (hcaches hn hn').1

/-! ## What a pass hands down -/

/-- A node that hands no stale aspects down has the same placement and opacity as before, up to
likeness. -/
theorem Inherited.alike_below (h : (i.below n).flags = ∅) :
    (i.world * n.transform).Alike n.world ∧
      Scalar.Alike (i.opacity * n.style.opacity) n.opacity := by
  simp only [Inherited.below] at h
  constructor
  · cases hmoved : i.world * n.transform != n.world with
    | false => exact .of_beq (by simpa [bne] using hmoved)
    | true =>
      rw [if_pos hmoved] at h
      exact absurd (Flags.eq_empty_of_subset (h ▸ Flags.subset_union_left Flags.shape _))
        (by decide)
  · cases hfaded : i.opacity * n.style.opacity != n.opacity with
    | false => exact .inl (by simpa [bne] using hfaded)
    | true =>
      rw [if_pos hfaded] at h
      exact absurd (Flags.eq_empty_of_subset (h ▸ Flags.subset_union_right _ Flags.paint))
        (by decide)

/-- A node that is not visited inherits what it inherited before, up to likeness. -/
theorem Sound.alike_above_of_not_visit (h : s.Sound)
    (hskip : ∀ i, ¬s.Visit s.root .atRoot j i) (hn : s.node? j = some n) :
    (s.updatePass.worldAbove n).Alike (s.worldAbove n) ∧
      Scalar.Alike (s.updatePass.opacityAbove n) (s.opacityAbove n) := by
  rcases h.above_cases_of_not_visit hskip hn with ⟨hw, ho⟩ | ⟨i, m, hflags, ⟨hw, ho⟩, hw', ho'⟩
  · rw [hw, ho]
    exact ⟨.refl _, .refl _⟩
  · rw [hw, ho, hw', ho']
    exact Inherited.alike_below hflags

/-- A pass aligns a poised scene. -/
theorem Poised.aligned_updatePass (hlaw : Steady R) (h : s.Poised) (hs : s.Sound) :
    s.updatePass.Aligned := by
  intro j n hn
  have hstale := hs.stale_updatePass hn
  rcases hs.tree.node?_updatePass_cases hn with ⟨i, n₀, hi, hn₀, rfl⟩ | ⟨hskip, hn₀⟩
  · obtain ⟨hworld, hopacity⟩ := hi.above_eq hs.tree hn₀
    refine ⟨?_, ?_⟩
    · show (i.world * n₀.transform).Alike (s.updatePass.worldAbove n₀ * n₀.transform)
      rw [hworld]
      exact .refl _
    · show Scalar.Alike (i.opacity * n₀.style.opacity)
        (s.updatePass.opacityAbove n₀ * n₀.style.opacity)
      rw [hopacity]
      exact .refl _
  · obtain ⟨hworld, hopacity⟩ := hs.alike_above_of_not_visit hskip hn₀
    have hfitting := h hn₀ hstale
    exact ⟨hfitting.world.trans hlaw (.mul hlaw (hworld.symm hlaw) (.refl _)),
      hfitting.opacity.trans hlaw (hlaw.mul _ _ _ _ (hopacity.symm hlaw) (.refl _))⟩

/-! ## Every change keeps a scene poised -/

theorem poised_new (hlaw : Steady R) (maxPasses : Nat) : (new maxPasses : Scene R).Poised := by
  intro id n hn _
  rw [(eq_of_node?_new hn).2]
  exact ⟨hlaw.identity_mul_identity.symm hlaw, hlaw.one_mul_one.symm hlaw⟩

/-- Every scene on a course from a poised one is poised. -/
theorem Course.poised {x y : Scene R × Journal R ω} (h : Course x y) (hlaw : Steady R)
    (hfits : y.1.nodes.Fits) (hs : x.1.Sound) (hx : x.1.Poised) : y.1.Poised :=
  (h.induct (P := fun x => x.1.Poised) hfits hs hx fun _ _ hmove hs hs' hfits =>
    hmove.edits (fun hs hs' hedit h => h.of_edited hs hs' hedit)
      (fun hs h => (h.aligned_updatePass hlaw hs).poised) hs hs' hfits).2

theorem Reachable.poised (h : s.Reachable) (hlaw : Steady R) (hfits : s.nodes.Fits) :
    s.Poised := by
  obtain ⟨ω, maxPasses, J, hcourse⟩ := h.course
  exact hcourse.poised hlaw hfits (sound_new maxPasses) (poised_new hlaw maxPasses)

/-! ## Composed placements -/

/-- The placement and the opacity of a node, composed from the root down. -/
inductive Composed (s : Scene R) : NodeId → Affine R → R → Prop where
  | root {n : Node R} (hn : s.node? s.root = some n) :
      Composed s s.root (.identity * n.transform) (1 * n.style.opacity)
  | child {p c : NodeId} {n : Node R} {w : Affine R} {o : R} (hp : Composed s p w o)
      (hn : s.node? c = some n) (hparent : n.parent = some p) :
      Composed s c (w * n.transform) (o * n.style.opacity)

/-- Nothing that placing composes fails to be a number. -/
def Numeric (s : Scene R) : Prop :=
  ∀ ⦃id w o⦄, s.Composed id w o → (w == w) = true ∧ (o == o) = true

/-- What is composed down to a node depends on what was set on the way. -/
theorem Composed.of_agree {w : Affine R} {o : R} (h : s'.Composed id w o)
    (hroot : s'.root = s.root) (hraw : Agree Node.raw s s') : s.Composed id w o := by
  have hback : ∀ {id n'}, s'.node? id = some n' → ∃ n, s.node? id = some n ∧
      n'.transform = n.transform ∧ n'.style = n.style ∧ n'.parent = n.parent := by
    intro id n' hn'
    obtain ⟨n, hn, heq⟩ := hraw.symm.node? hn'
    simp only [Node.raw, Prod.mk.injEq] at heq
    exact ⟨n, hn, heq.2.1.symm, heq.2.2.2.1.symm, heq.2.2.2.2.1.symm⟩
  induction h with
  | root hn' =>
    obtain ⟨n, hn, htransform, hstyle, -⟩ := hback hn'
    rw [hroot] at hn ⊢
    rw [htransform, hstyle]
    exact .root hn
  | child _ hn' hp' ih =>
    obtain ⟨n, hn, htransform, hstyle, hparent⟩ := hback hn'
    rw [htransform, hstyle]
    exact .child ih hn (hparent.symm.trans hp')

/-- A node is placed as composing from the root down gives, if it and all above it fit. -/
theorem Composed.alike (hlaw : Steady R) (hs : s.Tree) {w : Affine R} {o : R}
    (hc : s.Composed id w o) (hfit : ∀ a m, s.Above a id → s.node? a = some m → s.Fitting m) :
    ∀ {n : Node R}, s.node? id = some n → n.world.Alike w ∧ Scalar.Alike n.opacity o := by
  induction hc with
  | @root k hk =>
    intro n hn
    rw [hn] at hk
    cases hk
    obtain ⟨k, hk, -, hnone⟩ := hs.root
    rw [hn] at hk
    cases hk
    obtain ⟨hworld, hopacity⟩ := above_of_root (s := s) hnone
    have hfitting := hfit _ _ (.refl s _) hn
    exact ⟨hworld ▸ hfitting.world, hopacity ▸ hfitting.opacity⟩
  | @child p c k w o hp hk hparent ih =>
    intro n hn
    rw [hn] at hk
    cases hk
    have hp' : s.parent? c = some p := (parent?_of_node? hn).trans hparent
    obtain ⟨m, hm, -⟩ := hs.node?_of_parent? hp'
    obtain ⟨hworld, hopacity⟩ := above_of_parent hparent hm
    obtain ⟨hw, ho⟩ := ih (fun a m ha => hfit a m (.of_parent? hp' ha)) hm
    have hfitting := hfit _ _ (.refl s _) hn
    exact ⟨(hworld ▸ hfitting.world).trans hlaw (hw.mul hlaw (.refl _)),
      (hopacity ▸ hfitting.opacity).trans hlaw (hlaw.mul _ _ _ _ ho (.refl _))⟩

/-- What a visited node hands down is composed from the root down. -/
theorem Visit.composed (h : s.Visit s.root .atRoot j i) :
    ∀ {n : Node R}, s.node? j = some n →
      s.Composed j (i.world * n.transform) (i.opacity * n.style.opacity) := by
  induction h with
  | top => exact fun hn => .root hn
  | child _ hm hk hparent _ ih =>
    intro n hn
    rw [hn] at hk
    cases hk
    exact .child (ih hm) hn hparent

/-- Where all above a node fits and is a number, it hands nothing down that was not there before. -/
theorem Visit.flags_below (hlaw : Steady R) (hs : s.Tree) (hnumeric : s.Numeric)
    (hvisit : s.Visit s.root .atRoot j i)
    (hfit : ∀ a m, s.Above a j → s.node? a = some m → s.Fitting m) (hn : s.node? j = some n) :
    (i.below n).flags = ∅ := by
  obtain ⟨hw, ho⟩ := (hvisit.composed hn).alike hlaw hs hfit hn
  obtain ⟨hworld, hopacity⟩ := hnumeric (hvisit.composed hn)
  have hsame : (i.world * n.transform == n.world) = true := by
    obtain ⟨ha, hb, hc, hd, he, hf⟩ := Affine.beq_iff.1 (hw.eq_of_numbers hworld)
    exact Affine.beq_iff.2 ⟨hlaw.symm _ _ ha, hlaw.symm _ _ hb, hlaw.symm _ _ hc,
      hlaw.symm _ _ hd, hlaw.symm _ _ he, hlaw.symm _ _ hf⟩
  have hsame' : (i.opacity * n.style.opacity == n.opacity) = true :=
    hlaw.symm _ _ (ho.eq_of_number hopacity)
  simp only [Inherited.below, bne, hsame, hsame']
  rfl

/-- A pass over an aligned scene of numbers visits stale nodes only. -/
theorem Aligned.stale_of_visit (hlaw : Steady R) (h : s.Aligned) (hs : s.Tree)
    (hnumeric : s.Numeric) (hvisit : s.Visit s.root .atRoot j i) : s.Stale j := by
  cases hvisit with
  | top hn hflags => exact ⟨_, hn, fun hstale => hflags (by rw [hstale]; rfl)⟩
  | child hp hm hn _ hflags =>
    refine ⟨_, hn, fun hstale => hflags ?_⟩
    rw [hstale, hp.flags_below hlaw hs hnumeric (fun _ _ _ hm => h hm) hm]
    rfl

end Scene

end Freehand
