import Mathlib
import Freehand.Decimal.Binary64
import Freehand.Proofs.Scalar.Order

/-!
# What is no number

Binary floating point has values that are no numbers (NaN).  They compare with nothing, so a clamp
lets them pass, and a sum with one is one again.  Where they come from and where they do not:

* packing and unpacking keep NaN and numbers apart (`isNaN_unpack_pack`);
* two numbers are comparable, so a clamped number lies in the interval (`clamp_mem`);
* numbers compare as their signs, exponents and mantissas do, one after the other
  (`compare_eq_rank`), so they are in order (`ranked`);
* a sum with a finite number is NaN exactly if the other summand is (`isNaN_add_of_isFinite`);
* the floating-point number nearest to a decimal is never NaN, not even where the decimal is out
  of range (`isNaN_ofDecimal`).
-/

namespace Freehand.Binary64

open Float.Model (UnpackedFloat Format)
open Float.Model.UnpackedFloat

/-! ## Packing -/

/-- A packed number is NaN where its exponent is all ones and its mantissa is not zero. -/
theorem isNaN_unpack {spec : Format} (b : BitVec spec.numBits) :
    (unpack spec b).isNaN = true ↔ unpackExponent b = -1#_ ∧ unpackMantissa b ≠ 0#_ := by
  rw [unpack]
  split
  case isTrue hexponent =>
    split
    case isTrue hmantissa => simp [UnpackedFloat.isNaN, hmantissa]
    case isFalse hmantissa => simp [UnpackedFloat.isNaN, hexponent, hmantissa]
  case isFalse hexponent =>
    have hnumber : ¬(unpackExponent b = -1#_ ∧ unpackMantissa b ≠ 0#_) := fun h => hexponent h.1
    split
    case isTrue =>
      split
      all_goals simpa [UnpackedFloat.isNaN] using hnumber
    case isFalse => simpa [UnpackedFloat.isNaN] using hnumber

/-- Packing rounds, but makes no number out of what is none, nor the other way round. -/
theorem isNaN_unpack_pack (x : UnpackedFloat) :
    (unpack Format.binary64 (pack Format.binary64 x)).isNaN = x.isNaN := by
  rw [Bool.eq_iff_iff, isNaN_unpack]
  fun_cases pack Format.binary64 x with
  | case1 => simp [packedNaN, UnpackedFloat.isNaN]
  | case2 s => simp [packedInfinity, UnpackedFloat.isNaN]
  | case3 s => simp [packedZero, UnpackedFloat.isNaN]
  | case4 s m e hm biased hlarge => simp [packedInfinity, UnpackedFloat.isNaN]
  | case5 s m e hm width biased hsmall hnormal =>
    have hsmall' : biased + 1 < 2 ^ 11 := Nat.not_le.mp hsmall
    have hexponent : BitVec.ofNat 11 biased ≠ 2047#11 := by
      intro h
      have hones : biased % 2048 = 2047 := by simpa using congrArg BitVec.toNat h
      omega
    simp [UnpackedFloat.isNaN, hexponent]
  | case6 s m e hm width biased hsmall hsubnormal => simp [UnpackedFloat.isNaN]

/-! ## Order -/

theorem compare_eq_none (x y : UnpackedFloat) :
    x.compare y = none ↔ x.isNaN = true ∨ y.isNaN = true := by
  fun_cases UnpackedFloat.compare x y <;> simp_all [UnpackedFloat.isNaN]

/-- Exchanging the operands of a comparison reverses its outcome. -/
theorem compare_swap (x y : UnpackedFloat) : y.compare x = (x.compare y).map Ordering.swap := by
  cases x with
  | notANumber => cases y <;> rfl
  | infinity s =>
    cases y with
    | infinity t => cases s <;> cases t <;> rfl
    | _ => cases s <;> rfl
  | zero s =>
    cases y with
    | infinity t => cases t <;> rfl
    | finite t => cases t <;> rfl
    | _ => rfl
  | finite s m e hm =>
    cases y with
    | notANumber => cases s <;> rfl
    | infinity t => cases s <;> cases t <;> rfl
    | zero t => cases s <;> rfl
    | finite t n f hn =>
      have hswap : (compare f e).then (compare n m) = ((compare e f).then (compare m n)).swap := by
        rw [Ordering.swap_then, Int.compare_swap, Nat.compare_swap]
      cases s <;> cases t <;> simp [UnpackedFloat.compare, hswap]

theorem lt_iff (a b : Float) :
    a < b ↔ a.toModel.unpack.compare b.toModel.unpack = some .lt := by
  change decide (a.toModel < b.toModel) = true ↔ _
  rw [decide_eq_true_iff]
  exact beq_iff_eq

theorem le_iff (a b : Float) :
    a ≤ b ↔ ∃ o, a.toModel.unpack.compare b.toModel.unpack = some o ∧ o.isLE = true := by
  change decide (a.toModel ≤ b.toModel) = true ↔ _
  rw [decide_eq_true_iff]
  exact Option.any_eq_true ..

theorem compare_isSome {a b : Float} (ha : a.isNaN = false) (hb : b.isNaN = false) :
    ∃ o, a.toModel.unpack.compare b.toModel.unpack = some o := by
  refine Option.ne_none_iff_exists'.mp fun hnone => ?_
  obtain h | h := (compare_eq_none _ _).mp hnone
  · exact Bool.false_ne_true (ha.symm.trans h)
  · exact Bool.false_ne_true (hb.symm.trans h)

/-- Of two numbers, one is below the other or not above it. -/
theorem le_of_not_lt {a b : Float} (ha : a.isNaN = false) (hb : b.isNaN = false)
    (h : ¬a < b) : b ≤ a := by
  obtain ⟨o, ho⟩ := compare_isSome ha hb
  rw [lt_iff, ho] at h
  refine (le_iff b a).mpr ⟨o.swap, ?_, ?_⟩
  · rw [compare_swap, ho]
    rfl
  · cases o with
    | lt => exact absurd rfl h
    | eq => rfl
    | gt => rfl

theorem not_lt_self (a : Float) : ¬a < a := by
  intro h
  rw [lt_iff] at h
  have hswap := compare_swap a.toModel.unpack a.toModel.unpack
  rw [h] at hswap
  exact nomatch hswap

/-- What is no number compares with nothing. -/
theorem not_lt_of_isNaN {a b : Float} (h : a.isNaN = true ∨ b.isNaN = true) : ¬a < b := by
  rw [lt_iff, (compare_eq_none _ _).mpr h]
  exact fun hnone => nomatch hnone

theorem not_le_of_isNaN {a b : Float} (h : a.isNaN = true ∨ b.isNaN = true) : ¬a ≤ b := by
  rw [le_iff, (compare_eq_none _ _).mpr h]
  exact fun ⟨_, hnone, _⟩ => nomatch hnone

/-! ## Ranks -/

/-- Where a number stands in the order: its sign and whether it is infinite, then its exponent, then
its mantissa, the last two turned over below zero. -/
def rank : UnpackedFloat → ℤ ×ₗ ℤ ×ₗ ℤ
  | .infinity .negative => toLex (-2, toLex (0, 0))
  | .finite .negative m e _ => toLex (-1, toLex (-e, -m))
  | .zero _ | .notANumber => toLex (0, toLex (0, 0))
  | .finite .positive m e _ => toLex (1, toLex (e, m))
  | .infinity .positive => toLex (2, toLex (0, 0))

theorem compare_neg (a b : ℤ) : compare (-a) (-b) = (compare a b).swap := by
  rw [Int.compare_swap]
  rcases lt_trichotomy a b with h | h | h
  · rw [compare_gt_iff_gt.2 h, compare_gt_iff_gt.2 (neg_lt_neg h)]
  · rw [h, compare_eq_iff_eq.2 rfl, compare_eq_iff_eq.2 rfl]
  · rw [compare_lt_iff_lt.2 h, compare_lt_iff_lt.2 (neg_lt_neg h)]

theorem compare_natCast (m n : ℕ) : compare (m : ℤ) n = compare m n := by
  rcases lt_trichotomy m n with h | h | h
  · rw [compare_lt_iff_lt.2 h, compare_lt_iff_lt.2 (Int.ofNat_lt.2 h)]
  · rw [h, compare_eq_iff_eq.2 rfl, compare_eq_iff_eq.2 rfl]
  · rw [compare_gt_iff_gt.2 h, compare_gt_iff_gt.2 (Int.ofNat_lt.2 h)]

/-- Numbers compare as their ranks do. -/
theorem compare_eq_rank {x y : UnpackedFloat} (hx : x.isNaN = false) (hy : y.isNaN = false) :
    x.compare y = some (compare (rank x) (rank y)) := by
  cases x with
  | notANumber => cases hx
  | infinity s =>
    cases y with
    | notANumber => cases hy
    | infinity t => cases s <;> cases t <;> rfl
    | zero t => cases s <;> rfl
    | finite t => cases s <;> cases t <;> rfl
  | zero s =>
    cases y with
    | notANumber => cases hy
    | infinity t => cases t <;> rfl
    | zero t => rfl
    | finite t => cases t <;> rfl
  | finite s m e hm =>
    cases y with
    | notANumber => cases hy
    | infinity t => cases s <;> cases t <;> rfl
    | zero t => cases s <;> rfl
    | finite t n f hn =>
      have hbelow : compare (rank (.finite .negative m e hm)) (rank (.finite .negative n f hn)) =
          ((compare e f).then (compare m n)).swap := by
        show (compare (-e) (-f)).then (compare (-(m : ℤ)) (-n)) = _
        rw [compare_neg, compare_neg, compare_natCast, Ordering.swap_then]
      have habove : compare (rank (.finite .positive m e hm)) (rank (.finite .positive n f hn)) =
          (compare e f).then (compare m n) := by
        show (compare e f).then (compare (m : ℤ) n) = _
        rw [compare_natCast]
      cases s <;> cases t
      · exact congrArg some hbelow.symm
      · rfl
      · rfl
      · exact congrArg some habove.symm

/-- What is equal to anything is a number. -/
theorem number_of_beq {a b : Float} (h : (a == b) = true) :
    a.isNaN = false ∧ b.isNaN = false := by
  have hcompare : a.toModel.unpack.compare b.toModel.unpack = some .eq := beq_iff_eq.1 h
  refine ⟨Bool.eq_false_iff.mpr fun hn => ?_, Bool.eq_false_iff.mpr fun hn => ?_⟩
  · rw [(compare_eq_none _ _).mpr (.inl hn)] at hcompare
    cases hcompare
  · rw [(compare_eq_none _ _).mpr (.inr hn)] at hcompare
    cases hcompare

theorem isNaN_of_beq {a : Float} (h : (a == a) = true) : a.isNaN = false :=
  (number_of_beq h).1

theorem isNaN_of_isFinite {a : Float} (h : a.isFinite = true) : a.isNaN = false := by
  have hfinite : a.toModel.unpack.isFinite = true := h
  show a.toModel.unpack.isNaN = false
  cases hx : a.toModel.unpack with
  | notANumber =>
    rw [hx] at hfinite
    cases hfinite
  | _ => rfl

theorem le_iff_rank {a b : Float} (ha : a.isNaN = false) (hb : b.isNaN = false) :
    a ≤ b ↔ rank a.toModel.unpack ≤ rank b.toModel.unpack := by
  rw [le_iff, compare_eq_rank ha hb, ← compare_le_iff_le, ne_eq, ← Ordering.isLE_iff_ne_gt]
  exact ⟨fun ⟨_, ho, hle⟩ => Option.some.inj ho ▸ hle, fun hle => ⟨_, rfl, hle⟩⟩

theorem beq_iff_rank {a b : Float} (ha : a.isNaN = false) (hb : b.isNaN = false) :
    (a == b) = true ↔ rank a.toModel.unpack = rank b.toModel.unpack := by
  show (a.toModel.unpack.compare b.toModel.unpack == some .eq) = true ↔ _
  rw [compare_eq_rank ha hb, beq_iff_eq, Option.some.injEq, compare_eq_iff_eq]

/-- What compares is a number. -/
theorem number_of_le {a b : Float} (h : a ≤ b) : a.isNaN = false ∧ b.isNaN = false :=
  ⟨Bool.eq_false_iff.mpr fun hn => not_le_of_isNaN (.inl hn) h,
    Bool.eq_false_iff.mpr fun hn => not_le_of_isNaN (.inr hn) h⟩

/-- Floating-point numbers are in order, with the two zeros in one place. -/
theorem ranked : Scalar.Ranked Float where
  le_refl a ha := (le_iff_rank (isNaN_of_beq ha) (isNaN_of_beq ha)).2 le_rfl
  le_trans a b c hab hbc := by
    obtain ⟨ha, hb⟩ := number_of_le hab
    obtain ⟨-, hc⟩ := number_of_le hbc
    rw [le_iff_rank ha hb] at hab
    rw [le_iff_rank hb hc] at hbc
    exact (le_iff_rank ha hc).2 (hab.trans hbc)
  le_of_lt a b hab := by
    rw [lt_iff] at hab
    exact (le_iff a b).2 ⟨_, hab, rfl⟩
  le_of_not_lt a b ha hb hab := le_of_not_lt (isNaN_of_beq ha) (isNaN_of_beq hb) hab
  number a b hab := by
    obtain ⟨ha, hb⟩ := number_of_le hab
    exact ⟨(beq_iff_rank ha ha).2 rfl, (beq_iff_rank hb hb).2 rfl⟩
  beq_of_le a b hab hba := by
    obtain ⟨ha, hb⟩ := number_of_le hab
    rw [le_iff_rank ha hb] at hab
    rw [le_iff_rank hb ha] at hba
    exact (beq_iff_rank ha hb).2 (le_antisymm hab hba)

/-! ## Clamping -/

/-- A number is clamped to the interval. -/
theorem clamp_mem {lo hi a : Float} (h : lo ≤ hi) (ha : a.isNaN = false) :
    lo ≤ Scalar.clamp lo hi a ∧ Scalar.clamp lo hi a ≤ hi := by
  have hlo : lo.isNaN = false := Bool.eq_false_iff.mpr fun hn => not_le_of_isNaN (.inl hn) h
  have hhi : hi.isNaN = false := Bool.eq_false_iff.mpr fun hn => not_le_of_isNaN (.inr hn) h
  rw [Scalar.clamp]
  split
  case isTrue => exact ⟨le_of_not_lt hlo hlo (not_lt_self lo), h⟩
  case isFalse hbelow =>
    split
    case isTrue => exact ⟨h, le_of_not_lt hhi hhi (not_lt_self hi)⟩
    case isFalse habove => exact ⟨le_of_not_lt ha hlo hbelow, le_of_not_lt hhi ha habove⟩

/-- What is no number passes a clamp. -/
theorem clamp_eq_self {lo hi a : Float} (ha : a.isNaN = true) : Scalar.clamp lo hi a = a := by
  rw [Scalar.clamp, if_neg (not_lt_of_isNaN (.inl ha)), if_neg (not_lt_of_isNaN (.inr ha))]

/-! ## Sums -/

theorem isNaN_roundWithAccuracy (spec : Format) (s : Sign) (m : Nat) (e : Int) (acc : Accuracy) :
    (roundWithAccuracy spec s m e acc).isNaN = false := by
  simp only [roundWithAccuracy]
  split <;> rfl

theorem isNaN_normalize (spec : Format) (m e : Int) (s : Sign) :
    (UnpackedFloat.normalize spec m e s).isNaN = false := by
  rw [UnpackedFloat.normalize]
  split
  · exact isNaN_roundWithAccuracy ..
  · rfl
  · exact isNaN_roundWithAccuracy ..

/-- Adding a finite number neither makes NaN nor removes it. -/
theorem isNaN_add_of_isFinite {a b : Float} (hb : b.isFinite = true) :
    (a + b).isNaN = a.isNaN := by
  have hmodel : (a + b).isNaN =
      (UnpackedFloat.add Format.binary64 a.toModel.unpack b.toModel.unpack).isNaN :=
    isNaN_unpack_pack _
  have hfinite : b.toModel.unpack.isFinite = true := hb
  rw [hmodel]
  change _ = a.toModel.unpack.isNaN
  cases hx : a.toModel.unpack with
  | notANumber => cases b.toModel.unpack <;> rfl
  | infinity s =>
    cases hy : b.toModel.unpack with
    | infinity | notANumber =>
      rw [hy] at hfinite
      exact nomatch hfinite
    | _ => rfl
  | zero s =>
    cases hy : b.toModel.unpack with
    | infinity | notANumber =>
      rw [hy] at hfinite
      exact nomatch hfinite
    | zero t => cases s <;> cases t <;> rfl
    | finite => rfl
  | finite s m e hm =>
    cases hy : b.toModel.unpack with
    | infinity | notANumber =>
      rw [hy] at hfinite
      exact nomatch hfinite
    | zero => rfl
    | finite => exact isNaN_normalize ..

/-! ## Decimals -/

/-- A bit pattern whose magnitude is at most that of infinity is a number or infinite. -/
theorem isNaN_ofBits {w : UInt64} (h : w.toNat % 2 ^ 63 ≤ infinityBits) :
    (Float.ofBits w).isNaN = false := by
  have hmodel : (Float.ofBits w).isNaN = (unpack Format.binary64 w.toBitVec).isNaN :=
    isNaN_unpack_pack _
  rw [hmodel, Bool.eq_false_iff, Ne, isNaN_unpack]
  rintro ⟨hexponent, hmantissa⟩
  have htop : w.toNat >>> 52 % 2048 = 2047 := by
    simpa [unpackExponent] using congrArg BitVec.toNat hexponent
  -- With the exponent all ones, only the pattern of infinity itself is in reach.
  have hrest : w.toNat % 2 ^ 52 = 0 := by
    rw [infinityBits] at h
    omega
  exact hmantissa (BitVec.eq_of_toNat_eq (by simpa [unpackMantissa] using hrest))

theorem isNaN_ofRatio (negative : Bool) (num den : Nat) :
    (ofRatio negative num den).isNaN = false := by
  have hbits : bitsOfRatio num den ≤ infinityBits := by
    rw [bitsOfRatio]
    split
    · exact Nat.zero_le _
    · exact Nat.min_le_right ..
  have hmod : bitsOfRatio num den % 2 ^ 63 ≤ infinityBits := Nat.le_trans (Nat.mod_le ..) hbits
  refine isNaN_ofBits ?_
  cases negative with
  | false => simpa using hmod
  | true => simpa [twoPow] using hmod

theorem isNaN_ofDecimal (d : Decimal) : (ofDecimal d).isNaN = false := by
  rw [ofDecimal]
  split
  · exact isNaN_ofRatio ..
  split
  · exact isNaN_ofRatio ..
  · exact isNaN_ofRatio ..

end Freehand.Binary64
