import Freehand.Proofs.Scalar.Binary64
import Freehand.Proofs.Settings.Members
import Freehand.Settings.Call

/-!
# Settings in range

Preferences and nudges are clamped, and a clamp lets pass what is no number.  So the one way out of
the documented ranges is a text that spells NaN, and the one way back is another text.

* A text is read as NaN exactly if it spells it (`Preference.isNaN_number?`).  Numbers out of range
  and the names of infinity do not lead there.
* A call either sets a quantity or keeps it a number or not as it was (`Quantity.Held.perform`).
* After any calls, a quantity is NaN if the last text that was accepted for it spelled NaN, and is
  in its range otherwise (`Settings.held_performAll`).
-/

namespace Freehand

/-! ## Ranges -/

namespace Quantity

/-- The values that the settings document for a quantity. -/
def Admits (q : Quantity) (v : Float) : Prop :=
  match q with
  | angle => -90 ≤ v ∧ v ≤ 90
  | thinning => -1 ≤ v ∧ v ≤ 1
  | mass | drag | width | flatness => 0 ≤ v ∧ v ≤ 1

instance decidableAdmits : (q : Quantity) → (v : Float) → Decidable (q.Admits v)
  | angle, v => inferInstanceAs (Decidable (-90 ≤ v ∧ v ≤ 90))
  | thinning, v => inferInstanceAs (Decidable (-1 ≤ v ∧ v ≤ 1))
  | mass, v | drag, v | width, v | flatness, v => inferInstanceAs (Decidable (0 ≤ v ∧ v ≤ 1))

/-- What a quantity holds: nothing that is a number, or a value in its range. -/
def Held (q : Quantity) (void : Bool) (v : Float) : Prop :=
  if void then v.isNaN = true else q.Admits v

theorem admits_clamp (q : Quantity) {v : Float} (hv : v.isNaN = false) : q.Admits (q.clamp v) := by
  cases q with
  | angle => exact Binary64.clamp_mem (by decide +kernel) hv
  | thinning => exact Binary64.clamp_mem (by decide +kernel) hv
  | mass | drag | width | flatness => exact Binary64.clamp_mem (by decide +kernel) hv

/-- A value in range is a number. -/
theorem Admits.isNaN {q : Quantity} {v : Float} (h : q.Admits v) : v.isNaN = false := by
  refine Bool.eq_false_iff.mpr fun hv => ?_
  cases q with
  | angle | thinning | mass | drag | width | flatness =>
    exact Binary64.not_le_of_isNaN (.inr hv) h.1

theorem held_clamp (q : Quantity) (v : Float) : q.Held v.isNaN (q.clamp v) := by
  cases hv : v.isNaN with
  | true =>
    have hself : q.clamp v = v := Binary64.clamp_eq_self hv
    rw [hself]
    exact hv
  | false => exact q.admits_clamp hv

theorem Held.isNaN {q : Quantity} {void : Bool} {v : Float} (h : q.Held void v) :
    v.isNaN = void := by
  cases void with
  | true => exact h
  | false => exact Admits.isNaN h

/-- Every default passes its own clamp as a number. -/
theorem isNaN_standard (q : Quantity) : (q.standard : Float).isNaN = false := by
  cases q <;> decide +kernel

theorem admits_standard (q : Quantity) : q.Admits q.standard := by
  cases q <;> decide +kernel

end Quantity

/-! ## Texts -/

namespace Preference

/-- The characters of a number after its sign. -/
def unsigned : List Char → List Char
  | '-' :: cs => cs
  | '+' :: cs => cs
  | cs => cs

/-- A text that names what is no number, with a sign or none, small or capital, between blanks. -/
def spellsNaN (text : String) : Bool :=
  Text.lower (String.ofList (unsigned (Text.trim text).toList)) == "nan"

theorem number?_eq (text : String) : ∃ negative,
    (number? text : Option Float) = magnitude? negative (unsigned (Text.trim text).toList) := by
  rw [number?]
  generalize (Text.trim text).toList = cs
  fun_cases unsigned cs with
  | case1 cs => exact ⟨true, rfl⟩
  | case2 cs => exact ⟨false, rfl⟩
  | case3 cs hminus hplus =>
    split
    case h_1 ds => exact absurd rfl (hminus ds)
    case h_2 ds => exact absurd rfl (hplus ds)
    case h_3 => exact ⟨false, rfl⟩

/-- The only magnitude that is read as no number is the one spelt so. -/
theorem isNaN_magnitude? {negative : Bool} {cs : List Char} {v : Float}
    (h : magnitude? negative cs = some v) :
    v.isNaN = (Text.lower (String.ofList cs) == "nan") := by
  rw [magnitude?] at h
  split at h
  case h_1 heq =>
    rw [heq]
    cases negative <;> cases h <;> decide +kernel
  case h_2 heq =>
    rw [heq]
    cases negative <;> cases h <;> decide +kernel
  case h_3 heq =>
    rw [heq]
    cases h
    decide +kernel
  case h_4 _ _ hnan =>
    obtain ⟨d, -, rfl⟩ := Option.map_eq_some_iff.mp h
    rw [beq_eq_false_iff_ne.mpr hnan]
    exact Binary64.isNaN_ofDecimal d

/-- A text is read as NaN exactly if it spells it. -/
theorem isNaN_number? {text : String} {v : Float} (h : number? text = some v) :
    v.isNaN = spellsNaN text := by
  obtain ⟨negative, hnumber⟩ := number?_eq text
  exact isNaN_magnitude? (hnumber.symm.trans h)

theorem ofKey?_eq_some_iff {key : String} {p : Preference} : ofKey? key = some p ↔ p.key = key := by
  refine ⟨fun h => by simpa using List.find?_some h, ?_⟩
  rintro rfl
  cases p with
  | quantity q => cases q <;> rfl
  | _ => rfl

end Preference

/-! ## Calls -/

namespace Settings

/-- The difference that a call applies, if it applies one, is finite. -/
def Call.Finite : Call → Prop
  | .set _ _ => True
  | .nudgeAngle delta | .nudgeWidth delta => delta.isFinite = true

instance Call.decidableFinite : (c : Call) → Decidable c.Finite
  | .set _ _ => .isTrue trivial
  | .nudgeAngle delta | .nudgeWidth delta => inferInstanceAs (Decidable (delta.isFinite = true))

/-- Whether a call makes a quantity NaN, if it sets the quantity. -/
def Call.voids? (q : Quantity) : Call → Option Bool
  | .set key value =>
    if key = q.name then
      match value with
      | none => some false
      | some text => (Preference.number? text : Option Float).map fun _ => Preference.spellsNaN text
    else
      none
  | .nudgeAngle _ | .nudgeWidth _ => none

/-- The last call that sets a quantity makes it NaN. -/
def Voided (q : Quantity) (calls : List Call) : Bool :=
  (calls.filterMap (Call.voids? q)).getLast?.getD false

/-- A failed call leaves the settings as they are. -/
theorem perform_of_error {s : Settings Float} {c : Call} {e : SettingsError}
    (h : (s.perform c).1 = some e) : (s.perform c).2 = s := by
  rw [perform] at h ⊢
  split at h
  · exact nomatch h
  · rfl

theorem get_put {R : Type} [DecimalScalar R] (s : Settings R) (q : Quantity) (v : R) :
    (s.put q v).get q = v :=
  (SettingsField.same_put q v s).1

theorem get_put_of_ne {R : Type} [DecimalScalar R] (s : Settings R) {p q : Quantity} (v : R)
    (h : p ≠ q) : (s.put q v).get p = s.get p :=
  (SettingsField.same_put q v s).2 (.quantity p) fun hf => h (SettingsField.quantity.inj hf)

/-- Setting one entry leaves the quantities with other keys. -/
theorem get_set_of_ne {s t : Settings Float} {key : String} {value : Option String}
    {q : Quantity} (h : s.set key value = .ok t) (hkey : key ≠ q.name) : t.get q = s.get q := by
  have hother {p : Quantity} (hp : Preference.ofKey? key = some (.quantity p)) : q ≠ p := by
    rintro rfl
    exact hkey (Preference.ofKey?_eq_some_iff.mp hp).symm
  rw [Settings.set.eq_def] at h
  cases hp : Preference.ofKey? key with
  | none =>
    rw [hp] at h
    exact nomatch h
  | some p =>
    rw [hp] at h
    cases p with
    | quantity p =>
      cases value with
      | none =>
        cases h
        exact get_put_of_ne s _ (hother hp)
      | some text =>
        dsimp only at h
        split at h
        · cases h
          exact get_put_of_ne s _ (hother hp)
        · exact nomatch h
    | mode =>
      cases value with
      | none =>
        cases h
        cases q <;> rfl
      | some text =>
        dsimp only at h
        split at h
        · cases h
          cases q <;> rfl
        · exact nomatch h
    | timer =>
      cases value with
      | none =>
        cases h
        cases q <;> rfl
      | some text =>
        cases h
        cases q <;> rfl

/-! ### The entry of a quantity -/

variable (s : Settings Float) (q : Quantity)

theorem set_name_none : s.set q.name none = .ok (s.put q (q.clamp q.standard)) := by
  have hkey : Preference.ofKey? q.name = some (.quantity q) := Preference.ofKey?_eq_some_iff.mpr rfl
  rw [Settings.set.eq_def, hkey]

theorem set_name_some {text : String} {v : Float} (h : Preference.number? text = some v) :
    s.set q.name (some text) = .ok (s.put q (q.clamp v)) := by
  have hkey : Preference.ofKey? q.name = some (.quantity q) := Preference.ofKey?_eq_some_iff.mpr rfl
  rw [Settings.set.eq_def, hkey]
  dsimp only
  rw [h]

theorem set_name_invalid {text : String} (h : (Preference.number? text : Option Float) = none) :
    s.set q.name (some text) = .error (.invalidValue q.name text) := by
  have hkey : Preference.ofKey? q.name = some (.quantity q) := Preference.ofKey?_eq_some_iff.mpr rfl
  rw [Settings.set.eq_def, hkey]
  dsimp only
  rw [h]

variable {s q}

theorem held_nudge {void : Bool} {delta : Float} (h : q.Held void (s.get q))
    (hdelta : delta.isFinite = true) : q.Held void ((s.nudge q delta).get q) := by
  have hvoid : (s.get q + delta).isNaN = void :=
    (Binary64.isNaN_add_of_isFinite hdelta).trans h.isNaN
  rw [nudge, get_put, ← hvoid]
  exact q.held_clamp _

end Settings

/-- A call sets a quantity, or it stays a number in range or NaN as it was. -/
theorem Quantity.Held.perform {s : Settings Float} {q : Quantity} {void : Bool}
    (h : q.Held void (s.get q)) {c : Settings.Call} (hc : c.Finite) :
    q.Held ((c.voids? q).getD void) ((s.perform c).2.get q) := by
  cases c with
  | set key value =>
    by_cases hkey : key = q.name
    · subst hkey
      rw [Settings.perform, Settings.call, Settings.Call.voids?.eq_def]
      dsimp only
      rw [if_pos rfl]
      cases value with
      | none =>
        rw [Settings.set_name_none]
        dsimp only
        rw [Settings.get_put]
        exact q.admits_clamp q.isNaN_standard
      | some text =>
        cases hv : (Preference.number? text : Option Float) with
        | none =>
          rw [Settings.set_name_invalid s q hv]
          dsimp only
          rw [hv]
          exact h
        | some v =>
          rw [Settings.set_name_some s q hv]
          dsimp only
          rw [hv, Settings.get_put, ← Preference.isNaN_number? hv]
          exact q.held_clamp v
    · rw [Settings.perform, Settings.call, Settings.Call.voids?.eq_def]
      dsimp only
      rw [if_neg hkey]
      split
      case h_1 t ht =>
        rw [Settings.get_set_of_ne ht hkey]
        exact h
      case h_2 => exact h
  | nudgeAngle delta =>
    by_cases hq : q = .angle
    · subst hq
      exact Settings.held_nudge h hc
    · change q.Held void ((s.nudge .angle delta).get q)
      rw [Settings.nudge, Settings.get_put_of_ne s _ hq]
      exact h
  | nudgeWidth delta =>
    by_cases hq : q = .width
    · subst hq
      exact Settings.held_nudge h hc
    · change q.Held void ((s.nudge .width delta).get q)
      rw [Settings.nudge, Settings.get_put_of_ne s _ hq]
      exact h

namespace Settings

theorem performAll_concat (s : Settings Float) (calls : List Call) (c : Call) :
    s.performAll (calls ++ [c]) = ((s.performAll calls).perform c).2 :=
  List.foldl_append ..

theorem voided_concat (q : Quantity) (calls : List Call) (c : Call) :
    Voided q (calls ++ [c]) = (c.voids? q).getD (Voided q calls) := by
  rw [Voided, List.filterMap_append]
  cases hc : c.voids? q with
  | none => simp [Voided, hc]
  | some void => simp [hc]

/-- **Ranges.**  After any calls, a quantity is NaN if the last text that was accepted for it
spelled NaN, and is in its range otherwise.  A call that fails changes nothing. -/
theorem held_performAll (mode : StrokeMode) {calls : List Call} (hfinite : ∀ c ∈ calls, c.Finite) :
    let s : Settings Float := (withMode mode).performAll calls
    (∀ q : Quantity, q.Held (Voided q calls) (s.get q)) ∧
      ∀ c e, (s.perform c).1 = some e → (s.perform c).2 = s := by
  refine ⟨fun q => ?_, fun c e he => perform_of_error he⟩
  -- From the right: the verdict of the last call replaces that of the calls before it.
  induction calls using List.reverseRecOn with
  | nil =>
    change q.Admits ((withMode mode).get q)
    cases q <;> exact Quantity.admits_standard _
  | append_singleton calls c ih =>
    rw [performAll_concat, voided_concat]
    exact (ih fun c hc => hfinite c (List.mem_append_left _ hc)).perform
      (hfinite c (List.mem_append_right _ (List.mem_singleton_self c)))

/-- Calls that take mass out of its range and back, and leave drag without a value. -/
def strayCalls : List Call :=
  [.set "mass" (some " -NaN\t"), .nudgeAngle 1e300, .set "mass" (some "1e999"),
    .set "drag" (some "nan"), .set "drag" (some "heavy"), .nudgeWidth (-0.5)]

theorem held_performAll_strayCalls :
    (∀ c ∈ strayCalls, c.Finite) ∧
      ∀ q : Quantity, q.Held (q == .drag) (((withMode .line).performAll strayCalls).get q) := by
  have hfinite : ∀ c ∈ strayCalls, c.Finite := by decide +kernel
  refine ⟨hfinite, fun q => ?_⟩
  have hvoided : Voided q strayCalls = (q == .drag) := by cases q <;> decide +kernel
  rw [← hvoided]
  exact (held_performAll .line hfinite).1 q

/-- A text takes a quantity out of its range. -/
theorem not_admits_performAll :
    ¬∀ (mode : StrokeMode) (calls : List Call), (∀ c ∈ calls, c.Finite) →
      ∀ q : Quantity, q.Admits (((withMode mode).performAll calls).get q) := by
  intro h
  have hmass := h .calligraphic [.set "mass" (some "nan")] (by decide) .mass
  exact absurd hmass (by decide +kernel)

end Settings

end Freehand
