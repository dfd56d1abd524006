import Freehand.Decimal.Basic
import Freehand.Proofs.Scalar.Laws
import Mathlib.Data.Int.Sqrt

/-!
# Integers as scalars

Scenes and strokes can be computed over the integers, where quotients, roots and angles are rounded
down.  Integers are in order, `==` is their equality, and a chord between different points is at
least one long (`Scalar.measured_integers`).

With one element more, integers also serve where something is not finite (`Scalar.pointed`) or
different from itself (`Scalar.extended`).
-/

namespace Freehand

/-! ## Integers -/

/-- Integers as scalars.  Roots and angles are rounded down, but updates only add and multiply. -/
instance Scalar.integers : Scalar Int where
  zero := Int.ofNat 0
  one := Int.ofNat 1
  add := Int.add
  sub := Int.sub
  mul := Int.mul
  div := Int.ediv
  neg := Int.neg
  ofScientific m negative e :=
    Int.ofNat (if negative then Nat.div m (Nat.pow 10 e) else Nat.mul m (Nat.pow 10 e))
  beq a b := decide (a = b)
  lt := Int.lt
  le := Int.le
  decidableLT := Int.decLt
  decidableLE := Int.decLe
  pi := Int.ofNat 3
  sqrt := Int.sqrt
  sin _ := Int.ofNat 0
  cos _ := Int.ofNat 0
  atan2 _ _ := Int.ofNat 0
  isFinite _ := true

/-- Integers as scalars that are read from no text. -/
instance DecimalScalar.integers : DecimalScalar Int where
  ofDecimal _ := Int.ofNat 0
  toDecimal? _ := none
  infinity := Int.ofNat 0
  notANumber := Int.ofNat 0

theorem Scalar.exact_integers : Scalar.Exact Int where
  eq_of_beq a b h := by simpa using h
  one_mul_one := by decide
  identity_mul_identity := rfl

theorem Scalar.ordered_integers : Scalar.Ordered Int where
  le_refl := Int.le_refl
  le_trans _ _ _ := Int.le_trans
  le_of_lt _ _ := Int.le_of_lt
  le_of_not_lt _ _ := Int.not_lt.1
  number := beq_self_eq_true

/-- A chord between different points is at least one long. -/
theorem Point.distance_pos {p q : Point Int} (hne : p ≠ q) : 0 < p.distance q := by
  have hsq : (p - q).normSq = Int.ofNat ((p - q).x.natAbs * (p - q).x.natAbs +
      (p - q).y.natAbs * (p - q).y.natAbs) := by
    rw [Int.ofNat_eq_natCast, Int.natCast_add, Int.natAbs_mul_self, Int.natAbs_mul_self]
    rfl
  have hapart : (p - q).x.natAbs ≠ 0 ∨ (p - q).y.natAbs ≠ 0 := by
    by_contra hzero
    obtain ⟨hx, hy⟩ := not_or.1 hzero
    refine hne ?_
    cases p
    cases q
    rw [Point.mk.injEq]
    exact ⟨Int.sub_eq_zero.1 (Int.natAbs_eq_zero.1 (not_not.1 hx)),
      Int.sub_eq_zero.1 (Int.natAbs_eq_zero.1 (not_not.1 hy))⟩
  rw [distance, norm, hsq]
  refine Int.ofNat_lt.2 (Nat.sqrt_pos.2 ?_)
  rcases hapart with h | h
  · exact Nat.add_pos_left (Nat.mul_pos (Nat.pos_of_ne_zero h) (Nat.pos_of_ne_zero h)) _
  · exact Nat.add_pos_right _ (Nat.mul_pos (Nat.pos_of_ne_zero h) (Nat.pos_of_ne_zero h))

/-- The chords of a run that does not stand still add up to something. -/
theorem Fit.chordLengths_pos {p : Point Int} {run : List (Point Int)}
    (hchain : (p :: run).IsChain (· ≠ ·)) (hrun : run ≠ []) (length : Int) :
    ∃ total, (chordLengths length p run).getLast? = some total ∧ length < total := by
  induction run generalizing length p with
  | nil => exact absurd rfl hrun
  | cons q run ih =>
    obtain ⟨hne, hchain⟩ := List.isChain_cons_cons.1 hchain
    have hnext : length < length + p.distance q :=
      Int.lt_add_of_pos_right _ (Point.distance_pos hne)
    cases run with
    | nil => exact ⟨_, rfl, hnext⟩
    | cons r run =>
      obtain ⟨total, htotal, hlt⟩ := ih hchain (by simp) (length + p.distance q)
      refine ⟨total, ?_, Int.lt_trans hnext hlt⟩
      rw [chordLengths, List.getLast?_cons, htotal]
      rfl

theorem Scalar.measured_integers : Scalar.Measured Int where
  toOrdered := Scalar.ordered_integers
  eq_of_beq _ _ h := of_decide_eq_true h
  finite _ := rfl
  chords run hchain hlong := by
    match run with
    | [] | [_] => exact absurd hlong (by simp)
    | p :: q :: run =>
      obtain ⟨total, htotal, hpos⟩ := Fit.chordLengths_pos hchain (by simp) 0
      exact Fit.exists_chordParameters? htotal (Int.not_le.2 hpos) rfl

/-! ## Integers and one element more -/

/-- The integers, and one number that is not finite. -/
instance Scalar.pointed : Scalar (Option Int) where
  zero := some (Int.ofNat 0)
  one := some (Int.ofNat 1)
  add a b := a.bind fun x => b.map (Int.add x)
  sub a b := a.bind fun x => b.map (Int.sub x)
  mul a b := a.bind fun x => b.map (Int.mul x)
  div a b := a.bind fun x => b.map (Int.ediv x)
  neg a := a.map Int.neg
  ofScientific m negative e :=
    some (Int.ofNat (if negative then Nat.div m (Nat.pow 10 e) else Nat.mul m (Nat.pow 10 e)))
  beq a b := decide (a = b)
  lt a b := Int.lt (a.getD (Int.ofNat 0)) (b.getD (Int.ofNat 0))
  le a b := Int.le (a.getD (Int.ofNat 0)) (b.getD (Int.ofNat 0))
  decidableLT a b := Int.decLt (a.getD (Int.ofNat 0)) (b.getD (Int.ofNat 0))
  decidableLE a b := Int.decLe (a.getD (Int.ofNat 0)) (b.getD (Int.ofNat 0))
  pi := some (Int.ofNat 3)
  sqrt a := a
  sin _ := some (Int.ofNat 0)
  cos _ := some (Int.ofNat 0)
  atan2 _ _ := some (Int.ofNat 0)
  isFinite a := a.isSome

instance DecimalScalar.pointed : DecimalScalar (Option Int) where
  ofDecimal d :=
    let n := Int.ofNat (Nat.mul d.coefficient (Nat.pow 10 d.exponent.toNat))
    some (if d.negative then Int.neg n else n)
  toDecimal? a := a.map fun x => ⟨x.toNat != x.natAbs, x.natAbs, Int.ofNat 0⟩
  infinity := none
  notANumber := none

/-- The integers, and what is no number. -/
inductive Extended where
  /-- A number. -/
  | number (n : Int)
  /-- No number. -/
  | undefined

namespace Extended

/-- An operation on numbers, which gives no number otherwise. -/
def lift (f : Int → Int → Int) : Extended → Extended → Extended
  | number a, number b => number (f a b)
  | _, _ => undefined

/-- A comparison of numbers, which fails otherwise. -/
def compare (f : Int → Int → Bool) : Extended → Extended → Bool
  | number a, number b => f a b
  | _, _ => false

end Extended

/-- Integers as scalars, with one that is not equal to itself. -/
instance Scalar.extended : Scalar Extended where
  zero := .number (Int.ofNat 0)
  one := .number (Int.ofNat 1)
  add := .lift Int.add
  sub := .lift Int.sub
  mul := .lift Int.mul
  div := .lift Int.ediv
  neg := .lift Int.sub (.number (Int.ofNat 0))
  ofScientific m negative e :=
    .number (Int.ofNat (if negative then Nat.div m (Nat.pow 10 e) else Nat.mul m (Nat.pow 10 e)))
  beq a b := Extended.compare (fun a b => decide (a = b)) a b
  lt a b := Extended.compare (fun a b => (Int.decLt a b).decide) a b = true
  le a b := Extended.compare (fun a b => (Int.decLe a b).decide) a b = true
  decidableLT _ _ := instDecidableEqBool _ _
  decidableLE _ _ := instDecidableEqBool _ _
  pi := .number (Int.ofNat 3)
  sqrt a := a
  sin _ := .number (Int.ofNat 0)
  cos _ := .number (Int.ofNat 0)
  atan2 _ _ := .number (Int.ofNat 0)
  isFinite a := Extended.compare (fun _ _ => true) a a

end Freehand
