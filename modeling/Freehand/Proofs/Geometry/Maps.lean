import Freehand.Geometry.Path
import Freehand.Proofs.Scalar.Laws
import Mathlib.Algebra.Ring.MinimalAxioms
import Mathlib.Tactic.LinearCombination
import Mathlib.Tactic.Ring

/-!
# Maps that do not round

In exact arithmetic the maps of the plane compose associatively, the identity is neutral, and a map
whose determinant is not zero is undone by its inverse (`Affine.mul_inverse`).  The identity leaves
a path as it is (`Path.transformed_identity`).
-/

namespace Freehand

variable {R : Type} [Scalar R]

/-- The ring of exact arithmetic. -/
abbrev Scalar.Unrounded.ring (hlaw : Scalar.Unrounded R) : CommRing R :=
  .ofMinimalAxioms hlaw.add_assoc hlaw.zero_add hlaw.neg_add_cancel hlaw.mul_assoc hlaw.mul_comm
    hlaw.one_mul hlaw.left_distrib

/-! ## Maps -/

namespace Affine

omit [Scalar R] in
@[ext]
theorem ext {m n : Affine R} (ha : m.a = n.a) (hb : m.b = n.b) (hc : m.c = n.c) (hd : m.d = n.d)
    (he : m.e = n.e) (hf : m.f = n.f) : m = n := by
  cases m
  cases n
  simp only at ha hb hc hd he hf
  rw [ha, hb, hc, hd, he, hf]

variable (m n : Affine R)

theorem mul_eq : m * n =
    ⟨m.a * n.a + m.c * n.b, m.b * n.a + m.d * n.b,
     m.a * n.c + m.c * n.d, m.b * n.c + m.d * n.d,
     m.a * n.e + m.c * n.f + m.e, m.b * n.e + m.d * n.f + m.f⟩ := rfl

variable (hlaw : Scalar.Unrounded R)
include hlaw

theorem mul_assoc (k : Affine R) : m * n * k = m * (n * k) := by
  let _ := hlaw.ring
  simp only [mul_eq, mk.injEq]
  refine ⟨?_, ?_, ?_, ?_, ?_, ?_⟩ <;> ring

theorem identity_mul : identity * m = m := by
  let _ := hlaw.ring
  ext <;> simp only [mul_eq, identity] <;> ring

/-- A map that does not flatten the plane is undone by its inverse. -/
theorem mul_inverse (hdet : m.determinant ≠ 0) : m * m.inverse = identity := by
  let _ := hlaw.ring
  have hscale : 1 / m.determinant * (m.a * m.d + -(m.b * m.c)) = 1 := by
    rw [← hlaw.sub_eq_add_neg]
    exact hlaw.div_mul_cancel 1 _ hdet
  generalize hs : 1 / m.determinant = s at hscale
  simp only [mul_eq, inverse, identity, hs, hlaw.sub_eq_add_neg, mk.injEq]
  refine ⟨?_, ?_, ?_, ?_, ?_, ?_⟩
  · linear_combination hscale
  · ring
  · ring
  · linear_combination hscale
  · linear_combination -m.e * hscale
  · linear_combination -m.f * hscale

theorem apply_identity (p : Point R) : identity.apply p = p := by
  let _ := hlaw.ring
  have hx : (1 : R) * p.x + 0 * p.y + 0 = p.x := by ring
  have hy : (0 : R) * p.x + 1 * p.y + 0 = p.y := by ring
  rw [apply, identity]
  dsimp only
  rw [hx, hy]

end Affine

/-- The identity leaves a path as it is. -/
theorem Path.transformed_identity (hlaw : Scalar.Unrounded R) (path : Path R) :
    path.transformed .identity = path := by
  have helement : ∀ el : PathElement R, el.transformed .identity = el := by
    intro el
    cases el with
    | moveTo | lineTo | quadTo | curveTo =>
      simp only [PathElement.transformed, Affine.apply_identity hlaw]
    | close => rfl
  rw [transformed, funext helement, List.map_id']

end Freehand
