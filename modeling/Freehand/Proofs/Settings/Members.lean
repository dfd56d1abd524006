import Mathlib.Data.List.Nodup
import Freehand.Decimal.Binary64
import Freehand.Proofs.Json.Reading
import Freehand.Proofs.Scalar.Integers
import Freehand.Settings.Json

/-!
# Settings as members of an object

What a reader gets from an object that holds some of the fields of settings: these fields, and the
defaults of all others.  The order of the members is free, members with other names may stand
between them, and the text may be laid out in any way.

A quantity is the one field whose text may be read as another value: scalars are written by their
shortest decimal and read in a quick way.  So what is relied on is said of single scalars
(`DecimalScalar.ReadsBack`), and a scalar that is not finite has no text at all.
-/

namespace Freehand

variable {R : Type} [DecimalScalar R]

/-- The text of a scalar is read as that scalar. -/
def DecimalScalar.ReadsBack (x : R) : Prop :=
  ∃ d, DecimalScalar.toDecimal? x = some d ∧ (Numeral.ofDecimal d).scalar? = some x

/-- Floating-point numbers that are not finite are not written. -/
theorem Binary64.toDecimal?_eq_none {x : Float} (h : Scalar.isFinite x = false) :
    DecimalScalar.toDecimal? x = none := by
  have hfinite : x.isFinite = false := h
  change shortest? x = none
  rw [shortest?, hfinite]
  rfl

namespace SettingsField

/-! ## Names -/

theorem mem_all (f : SettingsField) : f ∈ all := by
  cases f with
  | quantity q => cases q <;> simp [all, Quantity.all]
  | _ => simp [all]

theorem name_of_ofName? {name : String} {f : SettingsField} (h : ofName? name = some f) :
    f.name = name := by
  simpa using List.find?_some h

theorem ofName?_name (f : SettingsField) : ofName? f.name = some f := by
  cases f with
  | quantity q => cases q <;> rfl
  | _ => rfl

theorem name_inj {f g : SettingsField} (h : f.name = g.name) : f = g := by
  have hf := ofName?_name f
  rw [h, ofName?_name] at hf
  exact (Option.some.inj hf).symm

/-! ## Values -/

omit [DecimalScalar R] in
/-- Two settings agree in a field. -/
def Same (f : SettingsField) (r s : Settings R) : Prop :=
  match f with
  | quantity q => r.get q = s.get q
  | mode => r.mode = s.mode
  | useTimer => r.useTimer = s.useTimer
  | sampleInterval => r.sampleInterval = s.sampleInterval
  | decimateMoves => r.decimateMoves = s.decimateMoves

omit [DecimalScalar R] in
theorem Same.refl (f : SettingsField) (s : Settings R) : f.Same s s := by
  cases f <;> rfl

omit [DecimalScalar R] in
theorem Same.trans {f : SettingsField} {r s t : Settings R} (hrs : f.Same r s)
    (hst : f.Same s t) : f.Same r t := by
  cases f <;> exact Eq.trans hrs hst

omit [DecimalScalar R] in
theorem eq_of_same {r s : Settings R} (h : ∀ f : SettingsField, f.Same r s) : r = s := by
  cases r
  cases s
  rw [Settings.mk.injEq]
  exact ⟨h (quantity .mass), h (quantity .drag), h (quantity .angle), h (quantity .width),
    h (quantity .thinning), h (quantity .flatness), h mode, h useTimer, h sampleInterval,
    h decimateMoves⟩

omit [DecimalScalar R] in
theorem same_put (q : Quantity) (x : R) (t : Settings R) :
    (t.put q x).get q = x ∧ ∀ g ≠ quantity q, g.Same (t.put q x) t := by
  refine ⟨by cases q <;> rfl, fun g hg => ?_⟩
  cases g with
  | quantity p => cases p <;> cases q <;> first | rfl | exact absurd rfl hg
  | _ => cases q <;> rfl

theorem ofName?_mode (m : StrokeMode) : StrokeMode.ofName? m.name = some m := by
  cases m <;> rfl

theorem word?_nat (w : UInt64) : word? (.nat w.toNat) = some w := by
  have hvalue : (Numeral.ofNat w.toNat).natural? = some w.toNat :=
    congrArg some (Decimal.value_digits w.toNat)
  rw [Json.nat, word?, hvalue]
  simp [w.toNat_lt]

/-- A field is read from its encoding, and no other field changes. -/
theorem decode_encode {f : SettingsField} {s : Settings R}
    (hback : ∀ q, f = quantity q → DecimalScalar.ReadsBack (s.get q)) (t : Settings R) :
    ∃ r, f.decode (f.encode s) t = some r ∧ f.Same r s ∧ ∀ g ≠ f, g.Same r t := by
  cases f with
  | quantity q =>
    obtain ⟨d, hd, hscalar⟩ := hback q rfl
    obtain ⟨hself, hother⟩ := same_put q (s.get q) t
    refine ⟨t.put q (s.get q), ?_, hself, hother⟩
    rw [decode, encode, Json.scalar, hd, scalar?, hscalar]
    rfl
  | mode =>
    refine ⟨{ t with mode := s.mode }, ?_, rfl, fun g hg => ?_⟩
    · rw [decode, encode, Json.text, StrokeMode.ofJson?, ofName?_mode]
      rfl
    · cases g with
      | mode => exact absurd rfl hg
      | quantity q => cases q <;> rfl
      | _ => rfl
  | useTimer =>
    refine ⟨{ t with useTimer := s.useTimer }, rfl, rfl, fun g hg => ?_⟩
    cases g with
    | useTimer => exact absurd rfl hg
    | quantity q => cases q <;> rfl
    | _ => rfl
  | sampleInterval =>
    refine ⟨{ t with sampleInterval := s.sampleInterval }, ?_, rfl, fun g hg => ?_⟩
    · rw [decode, encode, word?_nat]
      rfl
    · cases g with
      | sampleInterval => exact absurd rfl hg
      | quantity q => cases q <;> rfl
      | _ => rfl
  | decimateMoves =>
    refine ⟨{ t with decimateMoves := s.decimateMoves }, rfl, rfl, fun g hg => ?_⟩
    cases g with
    | decimateMoves => exact absurd rfl hg
    | quantity q => cases q <;> rfl
    | _ => rfl

/-- A quantity that is not written is not read. -/
theorem decode_unwritten {q : Quantity} {s : Settings R}
    (h : DecimalScalar.toDecimal? (s.get q) = none) (t : Settings R) :
    (quantity q).decode ((quantity q).encode s) t = none := by
  rw [decode, encode, Json.scalar, h]
  rfl

/-- Every field is written as a value that can be read. -/
theorem wellFormed_encode (f : SettingsField) (s : Settings R) : (f.encode s).WellFormed := by
  intro n hn
  cases f with
  | quantity q =>
    rw [encode, Json.scalar] at hn
    split at hn
    next d _ =>
      obtain rfl : n = .ofDecimal d := by simpa [Json.tokens] using hn
      exact Numeral.wellFormed_ofDecimal d
    next => simp [Json.tokens] at hn
  | sampleInterval =>
    obtain rfl : n = .ofNat s.sampleInterval.toNat := by
      simpa [encode, Json.nat, Json.tokens] using hn
    exact Numeral.wellFormed_ofNat _
  | _ => simp [encode, Json.text, Json.tokens] at hn

end SettingsField

namespace Settings

/-! ## Objects that hold settings -/

/-- Members of an object hold settings: each field is named at most once, and then with its value.
Other names may stand among them, with any values. -/
structure HeldBy (s : Settings R) (members : List (String × Json)) : Prop where
  once : ∀ f : SettingsField, (members.map Prod.fst).count f.name ≤ 1
  value : ∀ (f : SettingsField) (v : Json), (f.name, v) ∈ members → v = f.encode s

theorem HeldBy.tail {s : Settings R} {m : String × Json} {members : List (String × Json)}
    (h : s.HeldBy (m :: members)) : s.HeldBy members where
  once f := Nat.le_trans (List.count_le_count_cons) (h.once f)
  value f v hv := h.value f v (List.mem_cons_of_mem _ hv)

/-- Reading members takes the fields that they name, and leaves the others. -/
theorem ofMembers?_heldBy {s : Settings R} {members : List (String × Json)} (h : s.HeldBy members)
    (hback : ∀ q : Quantity, q.name ∈ members.map Prod.fst →
      DecimalScalar.ReadsBack (s.get q)) (seen : List SettingsField)
    (hseen : ∀ f ∈ seen, f.name ∉ members.map Prod.fst) (t : Settings R) :
    ∃ r, ofMembers? seen t (members.map fun m => (some m.1, m.2)) = some r ∧
      ∀ f : SettingsField, (f.name ∈ members.map Prod.fst → f.Same r s) ∧
        (f.name ∉ members.map Prod.fst → f.Same r t) := by
  induction members generalizing seen t with
  | nil => exact ⟨t, rfl, fun f => ⟨fun hf => absurd hf List.not_mem_nil, fun _ => .refl f t⟩⟩
  | cons m members ih =>
    obtain ⟨name, v⟩ := m
    have hback' : ∀ q : Quantity, q.name ∈ members.map Prod.fst →
        DecimalScalar.ReadsBack (s.get q) := fun q hq => hback q (List.mem_cons_of_mem _ hq)
    rw [List.map_cons, ofMembers?]
    cases hname : SettingsField.ofName? name with
    | none =>
      obtain ⟨r, hr, hsame⟩ := ih h.tail hback' seen
        (fun f hf hmem => hseen f hf (List.mem_cons_of_mem _ hmem)) t
      refine ⟨r, hr, fun f => ?_⟩
      have hne : f.name ≠ name := by
        rintro rfl
        rw [SettingsField.ofName?_name] at hname
        cases hname
      simpa [hne] using hsame f
    | some f =>
      obtain rfl := SettingsField.name_of_ofName? hname
      obtain rfl : v = f.encode s := h.value f v List.mem_cons_self
      have hfresh : f ∉ seen := fun hf => hseen f hf List.mem_cons_self
      have hlast : f.name ∉ members.map Prod.fst := by
        have honce := h.once f
        rw [List.map_cons, List.count_cons_self] at honce
        exact List.count_eq_zero.1 (by omega)
      obtain ⟨t', ht', hself, hother⟩ := f.decode_encode (s := s)
        (by rintro q rfl; exact hback q List.mem_cons_self) t
      obtain ⟨r, hr, hsame⟩ := ih h.tail hback' (f :: seen) (by
        intro g hg hmem
        rcases List.mem_cons.1 hg with rfl | hg
        · exact hlast hmem
        · exact hseen g hg (List.mem_cons_of_mem _ hmem)) t'
      refine ⟨r, by simp only [if_neg hfresh, ht', hr], fun g => ?_⟩
      by_cases hg : g = f
      · subst hg
        refine ⟨fun _ => ((hsame g).2 hlast).trans hself, fun hmem => ?_⟩
        exact absurd List.mem_cons_self hmem
      · have hne : g.name ≠ f.name := fun heq => hg (SettingsField.name_inj heq)
        refine ⟨fun hmem => (hsame g).1 ?_, fun hmem => ?_⟩
        · simpa [hne] using hmem
        · exact ((hsame g).2 fun hm => hmem (List.mem_cons_of_mem _ hm)).trans (hother g hg)

/-- A field whose value cannot be read spoils an object. -/
theorem ofMembers?_eq_none {f : SettingsField} {v : Json}
    (hv : ∀ t : Settings R, f.decode v t = none) {members : List (String × Json)}
    (hmem : (f.name, v) ∈ members) (seen : List SettingsField) (t : Settings R) :
    ofMembers? seen t (members.map fun m => (some m.1, m.2)) = none := by
  induction members generalizing seen t with
  | nil => exact absurd hmem List.not_mem_nil
  | cons m members ih =>
    obtain ⟨name, w⟩ := m
    rw [List.map_cons, ofMembers?]
    rcases List.mem_cons.1 hmem with heq | hmem
    · cases heq
      rw [SettingsField.ofName?_name]
      dsimp only
      rw [hv]
      split <;> rfl
    · split
      next => exact ih hmem seen t
      next g _ =>
        split
        next => rfl
        next =>
          split
          next => exact ih hmem _ _
          next => rfl

/-! ## Texts of settings -/

theorem heldBy_fields (s : Settings R) :
    s.HeldBy (SettingsField.all.map fun f => (f.name, f.encode s)) where
  once f := by
    have hnodup : (SettingsField.all.map SettingsField.name).Nodup :=
      List.Nodup.map (fun _ _ => SettingsField.name_inj) (by decide)
    rw [List.map_map]
    exact List.nodup_iff_count.1 hnodup f.name
  value f v hv := by
    obtain ⟨g, -, heq⟩ := List.mem_map.1 hv
    obtain ⟨hname, rfl⟩ := Prod.mk.inj heq
    rw [SettingsField.name_inj hname]

theorem parse_of_laidOut {members : List (String × Json)} {text : String}
    (h : (Json.record members).LaidOut text) :
    parse text = match ofMembers? [] standard (members.map fun m => (some m.1, m.2)) with
      | some s => (.ok s : Except SettingsError (Settings R))
      | none => .error .malformed := by
  rw [parse, Json.parse?_of_laidOut h]
  rfl

theorem laidOut_render (s : Settings R) : s.toJson.LaidOut s.render := by
  refine Json.laidOut_compact (Json.wellFormed_record fun m hm => ?_)
  obtain ⟨f, -, rfl⟩ := List.mem_map.1 hm
  exact f.wellFormed_encode s

/-- Settings are read as they were encoded.  From every layout of an object that holds some of the
fields, in any order and among any other members, a reader gets these fields and the defaults of all
others; so the text of settings is read as these settings.  The text of settings with a quantity
that is not finite is refused. -/
theorem parse_laidOut
    (hfinite : ∀ x : R, Scalar.isFinite x = false → DecimalScalar.toDecimal? x = none)
    (s : Settings R) :
    (∀ (members : List (String × Json)) (text : String),
      (Json.record members).LaidOut text → s.HeldBy members →
      (∀ q : Quantity, q.name ∈ members.map Prod.fst → DecimalScalar.ReadsBack (s.get q)) →
      ∃ r, parse text = .ok r ∧
        ∀ f : SettingsField, (f.name ∈ members.map Prod.fst → f.Same r s) ∧
          (f.name ∉ members.map Prod.fst → f.Same r standard)) ∧
    ((∀ q, DecimalScalar.ReadsBack (s.get q)) → parse s.render = .ok s) ∧
    ((∃ q, Scalar.isFinite (s.get q) = false) →
      parse s.render = (.error .malformed : Except SettingsError (Settings R))) := by
  have hheld : ∀ (members : List (String × Json)) (text : String),
      (Json.record members).LaidOut text → s.HeldBy members →
      (∀ q : Quantity, q.name ∈ members.map Prod.fst → DecimalScalar.ReadsBack (s.get q)) →
      ∃ r, parse text = .ok r ∧
        ∀ f : SettingsField, (f.name ∈ members.map Prod.fst → f.Same r s) ∧
          (f.name ∉ members.map Prod.fst → f.Same r standard) := by
    intro members text hlaid hheld hback
    obtain ⟨r, hr, hsame⟩ := ofMembers?_heldBy hheld hback []
      (fun _ h => absurd h List.not_mem_nil) standard
    exact ⟨r, by rw [parse_of_laidOut hlaid, hr], hsame⟩
  refine ⟨hheld, fun hback => ?_, fun ⟨q, hq⟩ => ?_⟩
  · obtain ⟨r, hr, hsame⟩ := hheld _ _ (laidOut_render s) (heldBy_fields s) fun q _ => hback q
    have hall : ∀ f : SettingsField, f.Same r s := by
      intro f
      refine (hsame f).1 ?_
      rw [List.map_map]
      exact List.mem_map_of_mem f.mem_all
    rw [hr, SettingsField.eq_of_same hall]
  · have hmem : ((SettingsField.quantity q).name, (SettingsField.quantity q).encode s) ∈
        SettingsField.all.map fun f => (f.name, f.encode s) :=
      List.mem_map_of_mem (f := fun f : SettingsField => (f.name, f.encode s))
        (SettingsField.mem_all (.quantity q))
    rw [parse_of_laidOut (laidOut_render s),
      ofMembers?_eq_none (SettingsField.decode_unwritten (hfinite _ hq)) hmem]

end Settings

/-! ## Settings over the integers and one number beyond -/

theorem Numeral.scaled?_of_le {a : R} {e : Int} (h : e.natAbs ≤ greatestTenPow) :
    scaled? a e =
      if 0 ≤ e then
        let v := a * tenPow e.natAbs
        if Scalar.isFinite v then some v else none
      else
        some (a / tenPow e.natAbs) := by
  rw [scaled?, if_pos h]

/-- Settings for lines, with two quantities that are whole. -/
def Settings.whole : Settings (Option Int) :=
  { standard with mass := some 7, thinning := some (-120), mode := .line,
                  sampleInterval := 18446744073709551615 }

/-- Some fields of these settings out of order, with a member of another name among them. -/
def Settings.wholeMembers : List (String × Json) :=
  [("sample_interval_ms", SettingsField.sampleInterval.encode whole), ("pressure", .array [.null]),
    ("thinning", (SettingsField.quantity .thinning).encode whole),
    ("mode", SettingsField.mode.encode whole), ("mass", (SettingsField.quantity .mass).encode whole)]

/-- The record is laid out with a blank in front.  Two quantities, the mode and the interval are
read from it, and the drag is the standard one. -/
theorem Settings.parse_laidOut_whole :
    ∃ (text : String) (r : Settings (Option Int)),
      (Json.record wholeMembers).LaidOut text ∧ whole.HeldBy wholeMembers ∧
      parse text = .ok r ∧ r.mass = some 7 ∧ r.thinning = some (-120) ∧ r.mode = .line ∧
      r.sampleInterval = 18446744073709551615 ∧ r.drag = (standard : Settings (Option Int)).drag ∧
      parse ({ whole with drag := none } : Settings (Option Int)).render =
        (.error .malformed : Except SettingsError (Settings (Option Int))) := by
  have hfinite : ∀ x : Option Int, Scalar.isFinite x = false →
      DecimalScalar.toDecimal? x = none := by
    intro x hx
    cases x with
    | none => rfl
    | some n => cases hx
  have hlaid : (Json.record wholeMembers).LaidOut
      (String.ofList (' ' :: (Json.record wholeMembers).compact.toList)) := by
    rw [Json.LaidOut, String.toList_ofList]
    refine .blank rfl (Json.laidOut_compact (Json.wellFormed_record ?_))
    intro m hm
    simp only [wholeMembers, List.mem_cons, List.not_mem_nil, or_false] at hm
    rcases hm with rfl | rfl | rfl | rfl | rfl
    · exact SettingsField.sampleInterval.wellFormed_encode whole
    · intro n hn
      simp [Json.tokens, Json.itemTokens] at hn
    · exact (SettingsField.quantity .thinning).wellFormed_encode whole
    · exact SettingsField.mode.wellFormed_encode whole
    · exact (SettingsField.quantity .mass).wellFormed_encode whole
  have hheld : whole.HeldBy wholeMembers := by
    constructor
    · intro f
      cases f with
      | quantity q => cases q <;> decide
      | _ => decide
    · intro f v hv
      cases f with
      | quantity q => cases q <;> simp_all [wholeMembers, SettingsField.name, Quantity.name]
      | _ => simp_all [wholeMembers, SettingsField.name]
  have hmass : DecimalScalar.ReadsBack (whole.get .mass) := by
    refine ⟨⟨false, 7, 0⟩, rfl, ?_⟩
    rw [Numeral.scalar?, Numeral.scaled?_of_le (by decide)]
    rfl
  have hthinning : DecimalScalar.ReadsBack (whole.get .thinning) := by
    refine ⟨⟨true, 120, 0⟩, rfl, ?_⟩
    rw [Numeral.scalar?, Numeral.scaled?_of_le (by decide)]
    rfl
  obtain ⟨hread, -, hrefused⟩ := parse_laidOut hfinite whole
  obtain ⟨r, hr, hsame⟩ := hread _ _ hlaid hheld (by
    intro q hq
    cases q with
    | mass => exact hmass
    | thinning => exact hthinning
    | _ => exact absurd hq (by decide))
  refine ⟨_, r, hlaid, hheld, hr, (hsame (.quantity .mass)).1 (by decide),
    (hsame (.quantity .thinning)).1 (by decide), (hsame .mode).1 (by decide),
    (hsame .sampleInterval).1 (by decide), (hsame (.quantity .drag)).2 (by decide), ?_⟩
  exact (parse_laidOut hfinite _).2.2 ⟨.drag, rfl⟩

end Freehand
