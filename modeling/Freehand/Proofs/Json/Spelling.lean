import Mathlib.Data.List.Chain
import Freehand.Json.Text

/-!
# Spellings of JSON texts

The ways in which a text may spell a row of tokens.  `LaysOut` is the freedom that JSON leaves to
whoever writes a text:

* blanks may stand anywhere between tokens,
* a character of a string may stand for itself or be escaped in several ways,
* the mark of an exponent may be small or a capital.

`divide?_of_laysOut` says that the division of a text finds the row of tokens again.  The one thing
to see is where a number ends, since nothing but the next character tells.  In the tokens of a value
a number is followed by a comma or by a closing mark only (`Follows`), and neither these nor a blank
can go on with a number (`Stops`).
-/

namespace Freehand

/-! ## Digits -/

namespace Decimal

theorem isDigit_eq (c : Char) : isDigit c = c.isDigit := by
  rw [Bool.eq_iff_iff, Char.isDigit_iff_toNat, isDigit, digit?]
  have hrange : ('0' ≤ c ∧ c ≤ '9') ↔ ('0'.toNat ≤ c.toNat ∧ c.toNat ≤ '9'.toNat) :=
    and_congr UInt32.le_iff_toNat_le UInt32.le_iff_toNat_le
  rw [← hrange]
  split
  next h => exact iff_of_true rfl h
  next h => exact iff_of_false Bool.false_ne_true h

theorem isDigit_of_mem_digits {n : Nat} {c : Char} (h : c ∈ digits n) : isDigit c = true := by
  rw [isDigit_eq]
  exact Nat.isDigit_of_mem_toDigits (by decide) (by decide) h

theorem digits_ne_nil (n : Nat) : digits n ≠ [] :=
  Nat.toDigits_ne_nil

theorem digit?_eq {c : Char} (h : isDigit c = true) : digit? c = some (c.toNat - '0'.toNat) := by
  rw [isDigit, digit?] at h
  rw [digit?]
  split at h <;> simp_all

theorem value_digits (n : Nat) : value (digits n) = n := by
  have hvalue : ∀ (cs : List Char) (m : Nat), (∀ c ∈ cs, isDigit c = true) →
      (cs.filterMap digit?).foldl (fun n d => 10 * n + d) m = Nat.ofDigitChars 10 cs m := by
    intro cs
    induction cs with
    | nil => intro m _; rfl
    | cons c cs ih =>
      intro m h
      rw [List.filterMap_cons_some (digit?_eq (h c List.mem_cons_self)), List.foldl_cons,
        Nat.ofDigitChars_cons]
      exact ih _ fun d hd => h d (List.mem_cons_of_mem _ hd)
  rw [value, hvalue _ _ fun c => isDigit_of_mem_digits]
  exact Nat.ofDigitChars_ten_toDigits

/-- The digits of a number that is not zero do not start with a zero. -/
theorem head?_digits {n : Nat} (h : n ≠ 0) : (digits n).head? ≠ some '0' := by
  induction n using Nat.strongRecOn with
  | ind n ih =>
    rw [digits, Nat.toDigits_eq_if (by decide)]
    split
    next hlt => simpa using h
    next hge =>
      have hhead : (Nat.toDigits 10 (n / 10)).head? ≠ some '0' := ih (n / 10) (by omega) (by omega)
      obtain ⟨d, ds, hds⟩ :=
        List.exists_cons_of_ne_nil (Nat.toDigits_ne_nil (n := n / 10) (b := 10))
      rwa [hds] at hhead ⊢

theorem takeDigits_append {ds rest : List Char} (hds : ∀ c ∈ ds, isDigit c = true)
    (hrest : ∀ c ∈ rest.head?, isDigit c = false) : takeDigits (ds ++ rest) = (ds, rest) := by
  have hnone : rest.takeWhile isDigit = [] ∧ rest.dropWhile isDigit = rest := by
    cases rest with
    | nil => exact ⟨rfl, rfl⟩
    | cons c rest => simp [hrest c (by simp)]
  rw [takeDigits, List.takeWhile_append_of_pos hds, List.dropWhile_append_of_pos hds, hnone.1,
    hnone.2, List.append_nil]

end Decimal

/-! ## Numbers -/

namespace Numeral

/-- The parts of a number are such as JSON has them. -/
structure WellFormed (n : Numeral) : Prop where
  whole_ne_nil : n.whole ≠ []
  whole_digits : ∀ c ∈ n.whole, Decimal.isDigit c = true
  /-- A zero stands in front only if it is the only digit. -/
  whole_plain : n.whole.head? = some '0' → n.whole = ['0']
  fraction_digits : ∀ c ∈ n.fraction, Decimal.isDigit c = true
  /-- An exponent has digits after its sign. -/
  exponent_signed : n.exponent = [] ∨ ∃ sign ds, n.exponent = sign ++ ds ∧
    (sign = [] ∨ sign = ['+'] ∨ sign = ['-']) ∧ ds ≠ [] ∧ ∀ c ∈ ds, Decimal.isDigit c = true

/-- The digits of a part of a number, if it has any, with a mark in front. -/
def part (mark : Char) (ds : List Char) : List Char :=
  if ds.isEmpty then [] else mark :: ds

/-- The characters of a number, with a given mark in front of its exponent. -/
def spelling (mark : Char) (n : Numeral) : List Char :=
  (if n.negative then ['-'] else []) ++
    (n.whole ++ (part '.' n.fraction ++ part mark n.exponent))

theorem spelling_eq_text (n : Numeral) : n.spelling 'e' = n.text := by
  simp [spelling, text, part]

/-- A part starts with its mark, or what follows starts. -/
theorem head?_part {mark c : Char} {ds rest : List Char} (h : c ∈ (part mark ds ++ rest).head?) :
    c = mark ∨ c ∈ rest.head? := by
  rw [part] at h
  split at h
  · exact .inr h
  · exact .inl (by simpa using h.symm)

/-! ### The numbers that are written -/

theorem wellFormed_ofNat (n : Nat) : (ofNat n).WellFormed where
  whole_ne_nil := Decimal.digits_ne_nil n
  whole_digits _ := Decimal.isDigit_of_mem_digits
  whole_plain h := by
    by_cases hn : n = 0
    · rw [hn]
      rfl
    · exact absurd h (Decimal.head?_digits hn)
  fraction_digits _ h := absurd h List.not_mem_nil
  exponent_signed := .inl rfl

theorem isDigit_of_mem_zeros {n : Int} {c : Char} (h : c ∈ zeros n) : Decimal.isDigit c = true := by
  rw [List.eq_of_mem_replicate h]
  rfl

/-- The digits of a number that is not zero may be cut after the first of them. -/
theorem wellFormed_of_digits {n : Nat} (hn : n ≠ 0) (negative : Bool) (k : Nat)
    {exponent : List Char} (h : exponent = [] ∨ ∃ sign ds, exponent = sign ++ ds ∧
      (sign = [] ∨ sign = ['+'] ∨ sign = ['-']) ∧ ds ≠ [] ∧ ∀ c ∈ ds, Decimal.isDigit c = true) :
    WellFormed ⟨negative, (Decimal.digits n).take (k + 1), (Decimal.digits n).drop (k + 1),
      exponent⟩ := by
  have hhead := Decimal.head?_digits hn
  obtain ⟨d, ds, hds⟩ := List.exists_cons_of_ne_nil (Decimal.digits_ne_nil n)
  refine ⟨?_, fun c hc => ?_, fun hzero => ?_, fun c hc => ?_, h⟩
  · simp [hds]
  · exact Decimal.isDigit_of_mem_digits (List.mem_of_mem_take hc)
  · refine absurd ?_ hhead
    simpa [hds] using hzero
  · exact Decimal.isDigit_of_mem_digits (List.mem_of_mem_drop hc)

/-- A decimal is written with digits, a first one that is not superfluous, and at most one sign. -/
theorem wellFormed_ofDecimal (d : Decimal) : (ofDecimal d).WellFormed := by
  rw [ofDecimal]
  split
  next => exact ⟨by simp, by simp; rfl, fun _ => rfl, by simp; rfl, .inl rfl⟩
  next hne =>
    split
    next =>
      split
      next =>
        obtain ⟨c, cs, hcs⟩ := List.exists_cons_of_ne_nil (Decimal.digits_ne_nil d.coefficient)
        refine ⟨by simp [hcs], fun c hc => ?_, fun hzero => ?_, by simp; rfl, .inl rfl⟩
        · rcases List.mem_append.1 hc with hc | hc
          · exact Decimal.isDigit_of_mem_digits hc
          · exact isDigit_of_mem_zeros hc
        · refine absurd ?_ (Decimal.head?_digits hne)
          simpa [hcs] using hzero
      next =>
        split
        next => exact wellFormed_of_digits hne d.negative _ (.inl rfl)
        next =>
          refine ⟨by simp, by simp; rfl, fun _ => rfl, fun c hc => ?_, .inl rfl⟩
          rcases List.mem_append.1 hc with hc | hc
          · exact isDigit_of_mem_zeros hc
          · exact Decimal.isDigit_of_mem_digits hc
    next =>
      refine wellFormed_of_digits hne d.negative 0 (.inr ⟨[if _ then '+' else '-'], _, rfl, ?_,
        Decimal.digits_ne_nil _, fun c => Decimal.isDigit_of_mem_digits⟩)
      split
      next => exact .inr (.inl rfl)
      next => exact .inr (.inr rfl)

end Numeral

namespace Json.Token

/-- No character of the text goes on with a number that ends before it. -/
def Stops (cs : List Char) : Prop :=
  ∀ c ∈ cs.head?, Decimal.isDigit c = false ∧ c ≠ '.' ∧ c ≠ 'e' ∧ c ≠ 'E'

theorem isPlainWhole_of_wellFormed {n : Numeral} (h : n.WellFormed) :
    isPlainWhole n.whole = true := by
  have hne := h.whole_ne_nil
  have hplain := h.whole_plain
  cases hw : n.whole with
  | nil => exact absurd hw hne
  | cons c cs =>
    rw [hw] at hplain
    by_cases hc : c = '0'
    · rw [hplain (by simp [hc])]
      rfl
    · unfold isPlainWhole
      split <;> simp_all

/-- An exponent is read as it is spelt, with a sign or none. -/
theorem exponent?_part {exponent rest : List Char} {mark : Char}
    (hmark : mark = 'e' ∨ mark = 'E') (hexp : exponent = [] ∨ ∃ sign ds, exponent = sign ++ ds ∧
      (sign = [] ∨ sign = ['+'] ∨ sign = ['-']) ∧ ds ≠ [] ∧ ∀ c ∈ ds, Decimal.isDigit c = true)
    (hrest : Stops rest) :
    exponent? (Numeral.part mark exponent ++ rest) = some (exponent, rest) := by
  rcases hexp with rfl | ⟨sign, ds, rfl, hsign, hne, hds⟩
  · cases rest with
    | nil => rfl
    | cons c rest => simp [Numeral.part, exponent?, (hrest c rfl).2.2]
  · have htake : Decimal.takeDigits (ds ++ rest) = (ds, rest) :=
      Decimal.takeDigits_append hds fun c hc => (hrest c hc).1
    have hsplit : exponentSign (sign ++ ds ++ rest) = (sign, ds ++ rest) := by
      rcases hsign with rfl | rfl | rfl
      · obtain ⟨d, ds, rfl⟩ := List.exists_cons_of_ne_nil hne
        have hd : Decimal.isDigit d = true := hds d List.mem_cons_self
        unfold exponentSign
        split
        next heq => cases heq; exact absurd hd (by decide)
        next heq => cases heq; exact absurd hd (by decide)
        next => rfl
      · rfl
      · rfl
    have hempty : (sign ++ ds).isEmpty = false := by simp [hne]
    simp only [Numeral.part, hempty, Bool.false_eq_true, if_false, List.cons_append, exponent?,
      if_pos hmark, hsplit, htake, hne]

/-- So is a fraction. -/
theorem fraction?_part {fraction rest : List Char}
    (hfraction : ∀ c ∈ fraction, Decimal.isDigit c = true)
    (hrest : ∀ c ∈ rest.head?, Decimal.isDigit c = false ∧ c ≠ '.') :
    fraction? (Numeral.part '.' fraction ++ rest) = some (fraction, rest) := by
  cases fraction with
  | nil =>
    change fraction? rest = some ([], rest)
    unfold fraction?
    split
    next => exact absurd rfl (hrest '.' rfl).2
    next => rfl
  | cons d ds =>
    change fraction? ('.' :: (d :: ds ++ rest)) = some (d :: ds, rest)
    rw [fraction?, Decimal.takeDigits_append hfraction fun c hc => (hrest c hc).1]
    rfl

/-- A number without its sign is read as it is spelt, up to where it stops. -/
theorem unsigned?_spelling {n : Numeral} (h : n.WellFormed) {mark : Char}
    (hmark : mark = 'e' ∨ mark = 'E') {rest : List Char} (hrest : Stops rest) :
    unsigned? n.negative (n.whole ++
      (Numeral.part '.' n.fraction ++ (Numeral.part mark n.exponent ++ rest))) =
        some (n, rest) := by
  have hexp : ∀ c ∈ (Numeral.part mark n.exponent ++ rest).head?,
      Decimal.isDigit c = false ∧ c ≠ '.' := by
    intro c hc
    rcases Numeral.head?_part hc with rfl | hc
    · rcases hmark with rfl | rfl <;> decide
    · exact ⟨(hrest c hc).1, (hrest c hc).2.1⟩
  have hwhole : ∀ c ∈ (Numeral.part '.' n.fraction ++
      (Numeral.part mark n.exponent ++ rest)).head?, Decimal.isDigit c = false := by
    intro c hc
    rcases Numeral.head?_part hc with rfl | hc
    · decide
    · exact (hexp c hc).1
  rw [unsigned?, Decimal.takeDigits_append h.whole_digits hwhole]
  simp only [isPlainWhole_of_wellFormed h, if_true, fraction?_part h.fraction_digits hexp,
    Option.bind_some, exponent?_part hmark h.exponent_signed hrest]

/-! ## Strings -/

/-- The ways to spell a code point inside a string. -/
inductive SpellsCode : Nat → List Char → Prop
  /-- Most characters stand for themselves. -/
  | plain {c : Char} (hspace : ¬c < ' ') (hquote : c ≠ '"') (hescape : c ≠ '\\') :
      SpellsCode c.toNat [c]
  /-- Some have an escape of one letter. -/
  | letter {c e : Char} (h : escaped? c = some e) : SpellsCode e.toNat ['\\', c]
  /-- All have one with four hexadecimal digits, in two halves where one is too small. -/
  | hex {a b c d : Char} {n : Nat} (h : hex? a b c d = some n) :
      SpellsCode n ['\\', 'u', a, b, c, d]

/-- The ways to spell a row of code points inside a string. -/
inductive SpellsCodes : List Nat → List Char → Prop
  | nil : SpellsCodes [] []
  | cons {n : Nat} {us : List Char} {ns : List Nat} {cs : List Char} (hn : SpellsCode n us)
      (hns : SpellsCodes ns cs) : SpellsCodes (n :: ns) (us ++ cs)

/-- The characters of a text are read as they are spelt, up to the quote. -/
theorem codes?_of_spells {ns : List Nat} {cs : List Char} (h : SpellsCodes ns cs)
    (before : List Nat) (rest : List Char) :
    codes? before (cs ++ '"' :: rest) = some (before.reverse ++ ns, rest) := by
  induction h generalizing before with
  | nil => simp [codes?]
  | @cons n us ns cs hn hns ih =>
    have hstep : codes? before (us ++ (cs ++ '"' :: rest)) =
        codes? (n :: before) (cs ++ '"' :: rest) := by
      cases hn with
      | plain hspace hquote hescape => simp_all [codes?]
      | @letter c e h =>
        have hu : c ≠ 'u' := fun hu => by simp [hu, escaped?] at h
        simp_all [codes?]
      | hex h => simp [codes?, h]
    rw [List.append_assoc, hstep, ih]
    simp

/-! ## Tokens -/

/-- The ways to spell a token.  Marks and words have one only. -/
def Spells : Token → List Char → Prop
  | .number n, cs => n.WellFormed ∧ ∃ mark, (mark = 'e' ∨ mark = 'E') ∧ cs = n.spelling mark
  | .string text, cs => ∃ codes us, SpellsCodes codes us ∧
      text = (characters? codes).map String.ofList ∧ cs = '"' :: (us ++ ['"'])
  | t, cs => cs = t.characters

/-- The texts that spell a row of tokens, with blanks between them. -/
inductive LaysOut : List Token → List Char → Prop
  | nil : LaysOut [] []
  | blank {c : Char} {ts : List Token} {cs : List Char} (hc : isSpace c = true)
      (h : LaysOut ts cs) : LaysOut ts (c :: cs)
  | token {t : Token} {us : List Char} {ts : List Token} {cs : List Char} (ht : Spells t us)
      (h : LaysOut ts cs) : LaysOut (t :: ts) (us ++ cs)

/-- A number is followed by a comma or by a closing mark. -/
def Follows (t u : Token) : Prop :=
  ∀ n, t = .number n → u = .comma ∨ u = .closeArray ∨ u = .closeObject

/-- A spelling starts with a character that is no blank, and the token is found in front. -/
theorem first?_spelling {n : Numeral} (h : n.WellFormed) {mark : Char}
    (hmark : mark = 'e' ∨ mark = 'E') {rest : List Char} (hrest : Stops rest) :
    ∃ c us, n.spelling mark = c :: us ∧ isSpace c = false ∧
      first? (c :: (us ++ rest)) = some (.number n, rest) := by
  have hlex := unsigned?_spelling h hmark hrest
  cases hneg : n.negative with
  | true =>
    rw [hneg] at hlex
    refine ⟨'-', n.whole ++ (Numeral.part '.' n.fraction ++ Numeral.part mark n.exponent),
      by rw [Numeral.spelling, hneg]; rfl, rfl, ?_⟩
    rw [List.append_assoc, List.append_assoc, first?, hlex]
    rfl
  | false =>
    obtain ⟨d, ds, hw⟩ := List.exists_cons_of_ne_nil h.whole_ne_nil
    have hd : Decimal.isDigit d = true := h.whole_digits d (by rw [hw]; exact List.mem_cons_self)
    rw [hneg, hw] at hlex
    refine ⟨d, ds ++ (Numeral.part '.' n.fraction ++ Numeral.part mark n.exponent),
      by rw [Numeral.spelling, hneg, hw]; rfl, ?_, ?_⟩
    · rw [Bool.eq_false_iff]
      intro hspace
      simp only [isSpace, Bool.or_eq_true, beq_iff_eq] at hspace
      rcases hspace with ((rfl | rfl) | rfl) | rfl <;> exact absurd hd (by decide)
    · rw [List.append_assoc, List.append_assoc]
      unfold first?
      split
      case h_12 => exact congrArg (Option.map _) hlex
      all_goals
        rename_i heq
        obtain ⟨rfl, -⟩ := List.cons.inj heq
        exact absurd hd (by decide)

/-- A token is recognized by its first character. -/
theorem first?_of_spells {t : Token} {us rest : List Char} (h : Spells t us)
    (hrest : ∀ n, t = .number n → Stops rest) :
    ∃ c cs, us = c :: cs ∧ isSpace c = false ∧ first? (c :: (cs ++ rest)) = some (t, rest) := by
  cases t with
  | number n =>
    obtain ⟨hn, mark, hmark, rfl⟩ := h
    exact first?_spelling hn hmark (hrest n rfl)
  | string text =>
    obtain ⟨codes, us, hcodes, rfl, rfl⟩ := h
    refine ⟨'"', _, rfl, rfl, ?_⟩
    rw [List.append_assoc, first?, List.cons_append, List.nil_append,
      codes?_of_spells hcodes [] rest]
    rfl
  | bool b => cases b <;> exact ⟨_, _, h, rfl, rfl⟩
  | _ => exact ⟨_, _, h, rfl, rfl⟩

/-! ## The division -/

theorem divide?_blank {c : Char} (hc : isSpace c = true) (before : List Token) (cs : List Char) :
    divide? before (c :: cs) = divide? before cs := by
  rw [divide?, if_pos hc]

theorem divide?_first {c : Char} {cs rest : List Char} {t : Token} (hc : isSpace c = false)
    (h : first? (c :: cs) = some (t, rest)) (before : List Token) :
    divide? before (c :: cs) = divide? (t :: before) rest := by
  rw [divide?, if_neg (by simp [hc])]
  split
  next heq => rw [h] at heq; cases heq; rfl
  next heq => rw [h] at heq; cases heq

/-- A blank, a comma, a closing mark and the end of a text stop a number. -/
theorem stops_of_laysOut {ts : List Token} {cs : List Char} (h : LaysOut ts cs)
    (hts : ∀ t ∈ ts.head?, t = .comma ∨ t = .closeArray ∨ t = .closeObject) : Stops cs := by
  intro c hc
  cases h with
  | nil => simp at hc
  | @blank d ts cs hd h =>
    obtain rfl : d = c := by simpa using hc
    simp only [isSpace, Bool.or_eq_true, beq_iff_eq] at hd
    rcases hd with ((rfl | rfl) | rfl) | rfl <;> decide
  | @token t us ts cs ht h =>
    rcases hts t rfl with rfl | rfl | rfl <;>
    · obtain rfl := ht
      obtain rfl : c = _ := by simpa [characters] using hc.symm
      decide

/-- The division finds a row of tokens in every text that spells it. -/
theorem divide?_of_laysOut {ts : List Token} {cs : List Char} (h : LaysOut ts cs)
    (hts : ts.IsChain Follows) (before : List Token) :
    divide? before cs = some (before.reverse ++ ts) := by
  induction h generalizing before with
  | nil => simp [divide?]
  | @blank c ts cs hc h ih => rw [divide?_blank hc, ih hts]
  | @token t us ts cs ht h ih =>
    rw [List.isChain_cons] at hts
    have hstops : ∀ n, t = .number n → Stops cs := fun n hn =>
      stops_of_laysOut h fun u hu => hts.1 u hu n hn
    obtain ⟨c, vs, rfl, hc, hfirst⟩ := first?_of_spells ht hstops
    rw [List.cons_append, divide?_first hc hfirst, ih hts.2]
    simp

end Json.Token

end Freehand
