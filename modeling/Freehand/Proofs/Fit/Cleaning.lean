import Freehand.Proofs.Fit.Joints

/-!
# What cleaning leaves of a run

Cleaning compares samples with `==`, which holds of zeros of either sign and is no more than an
equivalence of finite numbers (`Scalar.Comparable`).  Of a run of finite samples it keeps the first
one and one like the last, and it leaves fewer than two only where all samples are alike
(`Fit.clean_length_lt_two`).  What is consecutive after cleaning was cleaned out of consecutive
samples (`Fit.infix_clean`), so it has chords if these have (`Fit.Regular`).  Where `==` is
equality, every sample is left (`Fit.mem_clean`).
-/

namespace Freehand

variable {R : Type} [Scalar R]

namespace Point

theorem beq_iff {p q : Point R} : (p == q) = true ↔ (p.x == q.x) = true ∧ (p.y == q.y) = true := by
  cases p
  cases q
  simp only [BEq.beq, instBEqPoint.beq, Bool.and_eq_true]

variable (h : Scalar.Comparable R) {p q r : Point R}
include h

theorem beq_self (hp : p.isFinite = true) : (p == p) = true := by
  rw [isFinite, Bool.and_eq_true] at hp
  exact beq_iff.2 ⟨h.refl _ hp.1, h.refl _ hp.2⟩

theorem beq_symm (hpq : (p == q) = true) : (q == p) = true :=
  beq_iff.2 ⟨h.symm _ _ (beq_iff.1 hpq).1, h.symm _ _ (beq_iff.1 hpq).2⟩

theorem beq_trans (hpq : (p == q) = true) (hqr : (q == r) = true) : (p == r) = true :=
  beq_iff.2 ⟨h.trans _ _ _ (beq_iff.1 hpq).1 (beq_iff.1 hqr).1,
    h.trans _ _ _ (beq_iff.1 hpq).2 (beq_iff.1 hqr).2⟩

end Point

namespace Fit

theorem length_dedupFrom_le (p : Point R) (points : List (Point R)) :
    (dedupFrom p points).length ≤ points.length := by
  induction points generalizing p with
  | nil => exact Nat.le_refl 0
  | cons q points ih =>
    rw [dedupFrom, List.length_cons]
    split
    · exact Nat.le_succ_of_le (ih p)
    · exact Nat.succ_le_succ (ih q)

/-- No more samples are left than there were. -/
theorem length_clean_le (points : List (Point R)) : (clean points).length ≤ points.length := by
  refine Nat.le_trans ?_ (List.length_filter_le Point.isFinite points)
  rw [clean]
  split
  next hnil => rw [hnil]
  next p rest hcons =>
    rw [hcons]
    exact Nat.succ_le_succ (length_dedupFrom_le p rest)

/-! ## Finite samples -/

/-- Of finite samples, only those equal to the one before are left out. -/
theorem clean_of_finite {p : Point R} {points : List (Point R)}
    (hfinite : ∀ x ∈ p :: points, x.isFinite = true) :
    clean (p :: points) = p :: dedupFrom p points := by
  rw [clean, List.filter_eq_self.2 hfinite]

theorem dedupFrom_eq_nil {p : Point R} {points : List (Point R)} :
    dedupFrom p points = [] ↔ ∀ q ∈ points, (q == p) = true := by
  induction points with
  | nil => exact iff_of_true rfl (List.forall_mem_nil _)
  | cons q points ih =>
    rw [dedupFrom, List.forall_mem_cons]
    split
    next hq => rw [ih, and_iff_right hq]
    next hq => exact iff_of_false (List.cons_ne_nil _ _) fun hall => hq hall.1

/-- All samples of a run are alike: the pen stood still. -/
def Still (points : List (Point R)) : Prop :=
  ∀ p ∈ points, ∀ q ∈ points, (p == q) = true

theorem Still.subset {points points' : List (Point R)} (h : Still points)
    (hsubset : points' ⊆ points) : Still points' :=
  fun p hp q hq => h p (hsubset hp) q (hsubset hq)

section

variable (h : Scalar.Comparable R)
include h

theorem still_of_forall {p : Point R} {points : List (Point R)}
    (hall : ∀ q ∈ points, (q == p) = true) : Still points :=
  fun q hq r hr => Point.beq_trans h (hall q hq) (Point.beq_symm h (hall r hr))

/-- Runs that share a sample stand still where both do. -/
theorem Still.append {before rest : List (Point R)} {q : Point R} (hbefore : Still (before ++ [q]))
    (hrest : Still (q :: rest)) : Still (before ++ q :: rest) := by
  refine still_of_forall h (p := q) (List.forall_mem_append.2 ⟨fun x hx => ?_, fun x hx => ?_⟩)
  · exact hbefore x (List.mem_append_left _ hx) q (List.mem_append_right _ (.head _))
  · exact hrest x hx q (.head _)

/-- Fewer than two samples are left only where all are alike. -/
theorem clean_length_lt_two {points : List (Point R)}
    (hfinite : ∀ x ∈ points, x.isFinite = true) : (clean points).length < 2 ↔ Still points := by
  cases points with
  | nil => exact iff_of_true Nat.two_pos (List.forall_mem_nil _)
  | cons p points =>
    rw [clean_of_finite hfinite, List.length_cons]
    refine ⟨fun hshort => still_of_forall h (p := p) (List.forall_mem_cons.2 ⟨?_, ?_⟩),
      fun hstill => ?_⟩
    · exact Point.beq_self h (hfinite p (.head _))
    · exact dedupFrom_eq_nil.1 (List.eq_nil_of_length_eq_zero (by omega))
    · have hnil : dedupFrom p points = [] :=
        dedupFrom_eq_nil.2 fun q hq => hstill q (.tail _ hq) p (.head _)
      rw [hnil]
      exact Nat.one_lt_two

/-- The last sample that is left is like the last one. -/
theorem dedupFrom_getLast?_beq {p q : Point R} {points : List (Point R)}
    (hfinite : ∀ x ∈ p :: points, x.isFinite = true) (hq : (p :: points).getLast? = some q) :
    ∃ q', (p :: dedupFrom p points).getLast? = some q' ∧ (q' == q) = true := by
  induction points generalizing p with
  | nil =>
    obtain rfl : p = q := Option.some.inj hq
    exact ⟨p, rfl, Point.beq_self h (hfinite p (.head _))⟩
  | cons r points ih =>
    rw [List.getLast?_cons_cons] at hq
    obtain ⟨hp, hrest⟩ := List.forall_mem_cons.1 hfinite
    rw [dedupFrom]
    split
    next hr =>
      -- the sample that is left out may itself be the last one
      cases points with
      | nil =>
        obtain rfl : r = q := Option.some.inj hq
        exact ⟨p, rfl, Point.beq_symm h hr⟩
      | cons x points =>
        rw [List.getLast?_cons_cons, ← List.getLast?_cons_cons (a := p)] at hq
        exact ih (List.forall_mem_cons.2 ⟨hp, (List.forall_mem_cons.1 hrest).2⟩) hq
    next =>
      rw [List.getLast?_cons_cons]
      exact ih hrest hq

end

/-! ## Consecutive samples -/

/-- What remains after a cleaned sample was cleaned out of what followed that sample. -/
theorem suffix_dedupFrom {p : Point R} {points run : List (Point R)} (hne : run ≠ [])
    (hrun : run <:+ dedupFrom p points) :
    ∃ q rest, q :: rest <:+ points ∧ run = q :: dedupFrom q rest := by
  induction points generalizing p with
  | nil => exact absurd (List.suffix_nil.1 hrun) hne
  | cons q points ih =>
    rw [dedupFrom] at hrun
    split at hrun
    next =>
      obtain ⟨r, rest, hrest, rfl⟩ := ih hrun
      exact ⟨r, rest, hrest.trans (List.suffix_cons q points), rfl⟩
    next =>
      rcases List.suffix_cons_iff.1 hrun with rfl | hrun
      · exact ⟨q, points, List.suffix_rfl, rfl⟩
      · obtain ⟨r, rest, hrest, rfl⟩ := ih hrun
        exact ⟨r, rest, hrest.trans (List.suffix_cons q points), rfl⟩

/-- What is before a cleaned sample was cleaned out of what came before it. -/
theorem prefix_dedupFrom {p : Point R} {points run : List (Point R)} (hne : run ≠ [])
    (hrun : run <+: p :: dedupFrom p points) :
    ∃ rest, rest <+: points ∧ run = p :: dedupFrom p rest := by
  induction points generalizing p run with
  | nil =>
    rcases List.prefix_cons_iff.1 hrun with rfl | ⟨t, rfl, ht⟩
    · exact absurd rfl hne
    · exact ⟨[], List.prefix_rfl, by rw [List.prefix_nil.1 ht]; rfl⟩
  | cons q points ih =>
    rw [dedupFrom] at hrun
    split at hrun
    next hq =>
      obtain ⟨rest, hrest, rfl⟩ := ih hne hrun
      exact ⟨q :: rest, List.cons_prefix_cons.2 ⟨rfl, hrest⟩, by rw [dedupFrom, if_pos hq]⟩
    next hq =>
      rcases List.prefix_cons_iff.1 hrun with rfl | ⟨t, rfl, ht⟩
      · exact absurd rfl hne
      · by_cases hnil : t = []
        · exact ⟨[], List.nil_prefix, by rw [hnil]; rfl⟩
        · obtain ⟨rest, hrest, rfl⟩ := ih hnil ht
          exact ⟨q :: rest, List.cons_prefix_cons.2 ⟨rfl, hrest⟩, by rw [dedupFrom, if_neg hq]⟩

/-- Consecutive samples of a cleaned run were cleaned out of consecutive samples. -/
theorem infix_clean {points run : List (Point R)} (hfinite : ∀ x ∈ points, x.isFinite = true)
    (hrun : run <:+: clean points) : ∃ part, part <:+: points ∧ run = clean part := by
  by_cases hne : run = []
  · exact ⟨[], List.nil_infix, hne⟩
  obtain ⟨back, hprefix, hsuffix⟩ := List.infix_iff_prefix_suffix.1 hrun
  have hback : back ≠ [] := by
    rintro rfl
    exact hne (List.prefix_nil.1 hprefix)
  -- what a cleaned run ends with was cleaned out of what the run ends with
  obtain ⟨q, rest, hrest, rfl⟩ : ∃ q rest, q :: rest <:+ points ∧ back = q :: dedupFrom q rest := by
    cases points with
    | nil => exact absurd (List.suffix_nil.1 hsuffix) hback
    | cons p points =>
      rw [clean_of_finite hfinite] at hsuffix
      rcases List.suffix_cons_iff.1 hsuffix with rfl | hsuffix
      · exact ⟨p, points, List.suffix_rfl, rfl⟩
      · obtain ⟨q, rest, hrest, rfl⟩ := suffix_dedupFrom hback hsuffix
        exact ⟨q, rest, hrest.trans (List.suffix_cons p points), rfl⟩
  obtain ⟨part, hpart, rfl⟩ := prefix_dedupFrom hne hprefix
  have hrunPart : q :: part <:+: points :=
    (List.cons_prefix_cons.2 ⟨rfl, hpart⟩).isInfix.trans hrest.isInfix
  exact ⟨q :: part, hrunPart, (clean_of_finite fun x hx => hfinite x (hrunPart.subset hx)).symm⟩

/-- The samples are finite, and the chords of consecutive ones add up to something once equal
neighbours are left out. -/
structure Regular (points : List (Point R)) : Prop where
  finite : ∀ x ∈ points, x.isFinite = true
  chords : ∀ run, run <:+: points → 2 ≤ (clean run).length →
    ∃ u, chordParameters? (clean run) = some u

section

variable {points part : List (Point R)}

theorem Regular.mono (h : Regular points) (hpart : part <:+: points) : Regular part where
  finite x hx := h.finite x (hpart.subset hx)
  chords run hrun := h.chords run (hrun.trans hpart)

/-- What is consecutive after cleaning has chords. -/
theorem Regular.chords_clean (h : Regular points) (run : List (Point R))
    (hrun : run <:+: clean points) (hlong : 3 ≤ run.length) :
    ∃ u, chordParameters? run = some u := by
  obtain ⟨part, hpart, rfl⟩ := infix_clean h.finite hrun
  exact h.chords part hpart (by omega)

end

/-! ## Where `==` is equality -/

section

variable (h : Scalar.Measured R)
include h

theorem regular_of_measured (points : List (Point R)) : Regular points where
  finite := List.filter_eq_self.1 (filter_finite h points)
  chords run _ hlong := h.chords (clean run) (clean_isChain (Point.beq_refl h) run) hlong

theorem mem_dedupFrom {p x : Point R} {points : List (Point R)} :
    x = p ∨ x ∈ dedupFrom p points ↔ x = p ∨ x ∈ points := by
  induction points generalizing p with
  | nil => exact Iff.rfl
  | cons q points ih =>
    rw [dedupFrom]
    split
    next hq =>
      obtain rfl := Point.eq_of_beq h hq
      rw [ih, List.mem_cons, or_self_left]
    next => rw [List.mem_cons, List.mem_cons, ih]

/-- Every sample is left. -/
theorem mem_clean {points : List (Point R)} {x : Point R} : x ∈ clean points ↔ x ∈ points := by
  cases points with
  | nil => exact Iff.rfl
  | cons p points => rw [clean_cons h, List.mem_cons, List.mem_cons, mem_dedupFrom h]

/-- Two samples that differ are both left. -/
theorem two_le_length_clean {points : List (Point R)}
    (hdistinct : ∃ p ∈ points, ∃ q ∈ points, p ≠ q) : 2 ≤ (clean points).length := by
  obtain ⟨p, hp, q, hq, hne⟩ := hdistinct
  by_contra hshort
  have hfinite := (regular_of_measured h points).finite
  have hstill := (clean_length_lt_two h.comparable hfinite).1 (by omega)
  exact hne (Point.eq_of_beq h (hstill p hp q hq))

end

end Fit

end Freehand
