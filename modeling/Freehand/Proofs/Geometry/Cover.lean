import Freehand.Geometry.Rect
import Freehand.Proofs.Scalar.Laws

/-!
# Areas that cover others

An area covers a box if the box is missing or lies within the area.  The union of two areas is the
least that covers both, as far as the coordinates are ordered linearly (`Scalar.Ordered`).
-/

namespace Freehand

variable {R : Type} [Scalar R]

namespace Scalar.Ordered

variable (h : Ordered R) (a b c : R)
include h

theorem le_max_left : a ≤ max a b := by
  rw [max]
  split
  next hlt => exact h.le_of_lt a b hlt
  next => rw [if_pos (h.number a)]; exact h.le_refl a

theorem le_max_right : b ≤ max a b := by
  rw [max]
  split
  next => exact h.le_refl b
  next hlt => rw [if_pos (h.number a)]; exact h.le_of_not_lt a b hlt

theorem min_le_left : min a b ≤ a := by
  rw [min]
  split
  next hlt => exact h.le_of_lt b a hlt
  next => rw [if_pos (h.number a)]; exact h.le_refl a

theorem min_le_right : min a b ≤ b := by
  rw [min]
  split
  next => exact h.le_refl b
  next hlt => rw [if_pos (h.number a)]; exact h.le_of_not_lt b a hlt

variable {a b c}

theorem max_le (ha : a ≤ c) (hb : b ≤ c) : max a b ≤ c := by
  rw [max]
  split
  next => exact hb
  next => rw [if_pos (h.number a)]; exact ha

theorem le_min (ha : c ≤ a) (hb : c ≤ b) : c ≤ min a b := by
  rw [min]
  split
  next => exact hb
  next => rw [if_pos (h.number a)]; exact ha

end Scalar.Ordered

namespace Rect

/-- No side of `b` is outside of `a`. -/
structure Contains (a b : Rect R) : Prop where
  x0 : a.x0 ≤ b.x0
  y0 : a.y0 ≤ b.y0
  x1 : b.x1 ≤ a.x1
  y1 : b.y1 ≤ a.y1

/-- The box is missing or lies within the area. -/
def Covers (area box : Option (Rect R)) : Prop :=
  ∀ ⦃b⦄, box = some b → ∃ a, area = some a ∧ a.Contains b

instance (a b : Rect R) : Decidable (a.Contains b) :=
  decidable_of_iff (a.x0 ≤ b.x0 ∧ a.y0 ≤ b.y0 ∧ b.x1 ≤ a.x1 ∧ b.y1 ≤ a.y1)
    ⟨fun h => ⟨h.1, h.2.1, h.2.2.1, h.2.2.2⟩, fun h => ⟨h.x0, h.y0, h.x1, h.y1⟩⟩

namespace Covers

/-- An area covers a rectangle if each of its sides is beyond that of the rectangle. -/
theorem some_iff {a b : Rect R} : Covers (some a) (some b) ↔ a.Contains b := by
  constructor
  · intro h
    obtain ⟨_, ha, hab⟩ := h rfl
    cases ha
    exact hab
  · rintro h _ ⟨⟩
    exact ⟨a, rfl, h⟩

instance : ∀ area box : Option (Rect R), Decidable (Covers area box)
  | _, none => isTrue nofun
  | none, some _ => isFalse fun h => nomatch h rfl
  | some _, some _ => decidable_of_iff _ some_iff.symm

variable {a b c area : Option (Rect R)}

theorem none (area : Option (Rect R)) : Covers area none :=
  nofun

variable (h : Scalar.Ordered R)
include h

theorem refl (a : Option (Rect R)) : Covers a a :=
  fun b hb => ⟨b, hb, h.le_refl _, h.le_refl _, h.le_refl _, h.le_refl _⟩

/-- What covers an area covers what that covers. -/
theorem trans (hab : Covers a b) (hbc : Covers b c) : Covers a c := by
  intro r hr
  obtain ⟨q, hq, hqr⟩ := hbc hr
  obtain ⟨p, hp, hpq⟩ := hab hq
  exact ⟨p, hp, h.le_trans _ _ _ hpq.x0 hqr.x0, h.le_trans _ _ _ hpq.y0 hqr.y0,
    h.le_trans _ _ _ hqr.x1 hpq.x1, h.le_trans _ _ _ hqr.y1 hpq.y1⟩

/-- A union covers both of its parts, also where one of them is missing. -/
theorem join_left (a b : Option (Rect R)) : Covers (join a b) a := by
  rintro r rfl
  cases b with
  | none => exact refl h _ rfl
  | some q => exact ⟨r.union q, rfl, h.min_le_left _ _, h.min_le_left _ _, h.le_max_left _ _,
      h.le_max_left _ _⟩

theorem join_right (a b : Option (Rect R)) : Covers (join a b) b := by
  rintro r rfl
  cases a with
  | none => exact refl h _ rfl
  | some q => exact ⟨q.union r, rfl, h.min_le_right _ _, h.min_le_right _ _, h.le_max_right _ _,
      h.le_max_right _ _⟩

/-- What covers both areas covers their union. -/
theorem join (ha : Covers area a) (hb : Covers area b) : Covers area (Rect.join a b) := by
  cases a with
  | none => cases b <;> exact hb
  | some p =>
    cases b with
    | none => exact ha
    | some q =>
      intro u hu
      cases hu
      obtain ⟨r, hr, hrp⟩ := ha rfl
      obtain ⟨_, hr', hrq⟩ := hb rfl
      rw [hr] at hr'
      cases hr'
      exact ⟨r, hr, h.le_min hrp.x0 hrq.x0, h.le_min hrp.y0 hrq.y0, h.max_le hrp.x1 hrq.x1,
        h.max_le hrp.y1 hrq.y1⟩

theorem of_join_left (hab : Covers area (Rect.join a b)) : Covers area a :=
  hab.trans h (join_left h a b)

theorem of_join_right (hab : Covers area (Rect.join a b)) : Covers area b :=
  hab.trans h (join_right h a b)

/-- What is joined one after the other is covered in the end. -/
theorem foldl_join {α : Type} (box : α → Option (Rect R)) :
    ∀ (as : List α) (area : Option (Rect R)),
      Covers (as.foldl (fun b a => Rect.join b (box a)) area) area ∧
      ∀ a ∈ as, Covers (as.foldl (fun b a => Rect.join b (box a)) area) (box a) := by
  intro as
  induction as with
  | nil => exact fun area => ⟨refl h area, fun a ha => absurd ha List.not_mem_nil⟩
  | cons a as ih =>
    intro area
    obtain ⟨harea, has⟩ := ih (Rect.join area (box a))
    refine ⟨harea.of_join_left h, fun b hb => ?_⟩
    rcases List.mem_cons.1 hb with rfl | hb
    · exact harea.of_join_right h
    · exact has b hb

/-- What covers all that is joined covers the whole. -/
theorem foldl {α : Type} {box : α → Option (Rect R)} :
    ∀ {as : List α} {a : Option (Rect R)}, Covers area a → (∀ b ∈ as, Covers area (box b)) →
      Covers area (as.foldl (fun a b => Rect.join a (box b)) a) := by
  intro as
  induction as with
  | nil => exact fun ha _ => ha
  | cons b as ih =>
    intro a ha has
    exact ih (ha.join h (has b List.mem_cons_self)) fun c hc => has c (List.mem_cons_of_mem b hc)

/-- A larger area joined to the same one is larger. -/
theorem join_mono (hab : Covers a b) (c : Option (Rect R)) :
    Covers (Rect.join c a) (Rect.join c b) :=
  join h (join_left h c a) ((join_right h c a).trans h hab)

end Covers

end Rect

end Freehand
