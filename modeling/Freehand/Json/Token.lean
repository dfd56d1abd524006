import Freehand.Json.Basic

/-!
# JSON tokens

The tokens of a JSON text and the division of a text into tokens.

* Between tokens stand spaces, tabs and line ends only.
* A number has no leading zeros, and digits on both sides of a point and after an exponent mark.
* A string holds no control characters.  An escape `\u` takes four hexadecimal digits, and two such
  escapes that form a surrogate pair stand for one character.

Each token uses up at least one character, which bounds the division.
-/

namespace Freehand.Json

/-- A token of a JSON text. -/
inductive Token where
  /-- The mark `{`. -/
  | openObject
  /-- The mark `}`. -/
  | closeObject
  /-- The mark `[`. -/
  | openArray
  /-- The mark `]`. -/
  | closeArray
  /-- The mark `:`. -/
  | colon
  /-- The mark `,`. -/
  | comma
  /-- The word `null`. -/
  | null
  /-- One of the words `true` and `false`. -/
  | bool (b : Bool)
  /-- A number. -/
  | number (n : Numeral)
  /-- A string, with its text if it has one. -/
  | string (text : Option String)
  deriving DecidableEq, Inhabited

namespace Token

/-! ## Numbers -/

/-- The whole digits of a number stand without a needless zero in front. -/
def isPlainWhole : List Char → Bool
  | [] => false
  | '0' :: _ :: _ => false
  | _ => true

/-- The fraction of a number at the front of a text. -/
def fraction? : List Char → Option (List Char × List Char)
  | '.' :: cs =>
    let (ds, rest) := Decimal.takeDigits cs
    if ds = [] then none else some (ds, rest)
  | cs => some ([], cs)

/-- The sign of an exponent and the rest of the text. -/
def exponentSign : List Char → List Char × List Char
  | '+' :: cs => (['+'], cs)
  | '-' :: cs => (['-'], cs)
  | cs => ([], cs)

/-- The exponent of a number at the front of a text. -/
def exponent? : List Char → Option (List Char × List Char)
  | [] => some ([], [])
  | c :: cs =>
    if c = 'e' ∨ c = 'E' then
      let (sign, digits) := exponentSign cs
      let (ds, rest) := Decimal.takeDigits digits
      if ds = [] then none else some (sign ++ ds, rest)
    else
      some ([], c :: cs)

/-- The number without a sign at the front of a text, and the rest. -/
def unsigned? (negative : Bool) (cs : List Char) : Option (Numeral × List Char) :=
  let (whole, afterWhole) := Decimal.takeDigits cs
  if isPlainWhole whole then
    (fraction? afterWhole).bind fun (fraction, afterFraction) =>
      (exponent? afterFraction).bind fun (exponent, rest) =>
        some (⟨negative, whole, fraction, exponent⟩, rest)
  else
    none

/-! ## Strings -/

/-- The value of a hexadecimal digit. -/
def hexDigit? (c : Char) : Option Nat :=
  if '0' ≤ c ∧ c ≤ '9' then some (c.toNat - '0'.toNat)
  else if 'a' ≤ c ∧ c ≤ 'f' then some (c.toNat - 'a'.toNat + 10)
  else if 'A' ≤ c ∧ c ≤ 'F' then some (c.toNat - 'A'.toNat + 10)
  else none

/-- The value of four hexadecimal digits. -/
def hex? (a b c d : Char) : Option Nat := do
  let a ← hexDigit? a
  let b ← hexDigit? b
  let c ← hexDigit? c
  let d ← hexDigit? d
  return ((a * 16 + b) * 16 + c) * 16 + d

/-- The character that a one-letter escape stands for. -/
def escaped? : Char → Option Char
  | '"' => some '"'
  | '\\' => some '\\'
  | '/' => some '/'
  | 'b' => some '\x08'
  | 'f' => some '\x0c'
  | 'n' => some '\n'
  | 'r' => some '\r'
  | 't' => some '\t'
  | _ => none

/-- The code points up to the closing quote, in reverse after those of `before`, and the rest.
Surrogates come from escapes only. -/
def codes? (before : List Nat) : List Char → Option (List Nat × List Char)
  | [] => none
  | '"' :: rest => some (before.reverse, rest)
  | '\\' :: 'u' :: a :: b :: c :: d :: rest =>
    match hex? a b c d with
    | some n => codes? (n :: before) rest
    | none => none
  | '\\' :: c :: rest =>
    match escaped? c with
    | some e => codes? (e.toNat :: before) rest
    | none => none
  | c :: rest => if c < ' ' then none else codes? (c.toNat :: before) rest

/-- The code point is the first half of a surrogate pair. -/
def isHighHalf (n : Nat) : Bool :=
  0xD800 ≤ n && n < 0xDC00

/-- The code point is the second half of a surrogate pair. -/
def isLowHalf (n : Nat) : Bool :=
  0xDC00 ≤ n && n < 0xE000

/-- The characters of a run of code points, in which surrogates must form pairs. -/
def characters? : List Nat → Option (List Char)
  | [] => some []
  | n :: rest =>
    if isHighHalf n then
      match rest with
      | m :: rest' =>
        if isLowHalf m then
          (characters? rest').map
            (Char.ofNat (0x10000 + (n - 0xD800) * 0x400 + (m - 0xDC00)) :: ·)
        else
          none
      | [] => none
    else if isLowHalf n then
      none
    else
      (characters? rest).map (Char.ofNat n :: ·)

/-! ## The division of a text -/

/-- The character may stand between tokens. -/
def isSpace (c : Char) : Bool :=
  c == ' ' || c == '\t' || c == '\n' || c == '\r'

/-- The token at the front of a text, and the rest. -/
def first? : List Char → Option (Token × List Char)
  | '{' :: cs => some (openObject, cs)
  | '}' :: cs => some (closeObject, cs)
  | '[' :: cs => some (openArray, cs)
  | ']' :: cs => some (closeArray, cs)
  | ':' :: cs => some (colon, cs)
  | ',' :: cs => some (comma, cs)
  | 'n' :: 'u' :: 'l' :: 'l' :: cs => some (null, cs)
  | 't' :: 'r' :: 'u' :: 'e' :: cs => some (bool true, cs)
  | 'f' :: 'a' :: 'l' :: 's' :: 'e' :: cs => some (bool false, cs)
  | '"' :: cs => (codes? [] cs).map fun (codes, rest) =>
      (string ((characters? codes).map String.ofList), rest)
  | '-' :: cs => (unsigned? true cs).map fun (n, rest) => (number n, rest)
  | cs => (unsigned? false cs).map fun (n, rest) => (number n, rest)

/-! ### Every token takes a character -/

theorem length_takeDigits (cs : List Char) :
    (Decimal.takeDigits cs).1.length + (Decimal.takeDigits cs).2.length = cs.length := by
  rw [← List.length_append]
  exact congrArg List.length List.takeWhile_append_dropWhile

/-- No character is read twice with a fraction. -/
theorem length_le_of_fraction? {cs ds rest : List Char} (h : fraction? cs = some (ds, rest)) :
    rest.length ≤ cs.length := by
  unfold fraction? at h
  split at h
  · rename_i cs'
    have hlen := length_takeDigits cs'
    rcases hd : Decimal.takeDigits cs' with ⟨ds', rest'⟩
    simp only [hd] at h hlen
    split at h
    · simp at h
    · simp only [Option.some.injEq, Prod.mk.injEq] at h
      obtain ⟨-, rfl⟩ := h
      simp only [List.length_cons]
      omega
  · cases h
    exact Nat.le_refl _

theorem length_exponentSign_le (cs : List Char) : (exponentSign cs).2.length ≤ cs.length := by
  unfold exponentSign
  split <;> simp

/-- Nor is one with an exponent. -/
theorem length_le_of_exponent? {cs ds rest : List Char} (h : exponent? cs = some (ds, rest)) :
    rest.length ≤ cs.length := by
  cases cs with
  | nil =>
    cases h
    exact Nat.le_refl _
  | cons c cs =>
    have hsign := length_exponentSign_le cs
    have hlen := length_takeDigits (exponentSign cs).2
    simp only [exponent?] at h
    split at h
    · split at h
      · simp at h
      · simp only [Option.some.injEq, Prod.mk.injEq] at h
        obtain ⟨-, rfl⟩ := h
        simp only [List.length_cons]
        omega
    · simp only [Option.some.injEq, Prod.mk.injEq] at h
      obtain ⟨-, rfl⟩ := h
      exact Nat.le_refl _

/-- A number takes one character at least. -/
theorem length_lt_of_unsigned? {negative : Bool} {cs rest : List Char} {n : Numeral}
    (h : unsigned? negative cs = some (n, rest)) : rest.length < cs.length := by
  have hlen := length_takeDigits cs
  simp only [unsigned?] at h
  split at h
  · rename_i hplain
    simp only [Option.bind_eq_some_iff, Option.some.injEq, Prod.mk.injEq] at h
    obtain ⟨⟨_, _⟩, hf, ⟨_, _⟩, he, -, rfl⟩ := h
    have hfraction := length_le_of_fraction? hf
    have hexponent := length_le_of_exponent? he
    have hwhole : 0 < (Decimal.takeDigits cs).1.length := by
      cases hw : (Decimal.takeDigits cs).1 with
      | nil => simp [hw, isPlainWhole] at hplain
      | cons => simp
    dsimp only at hexponent hfraction ⊢
    omega
  · simp at h

theorem length_lt_of_codes? {before codes : List Nat} {cs rest : List Char}
    (h : codes? before cs = some (codes, rest)) : rest.length < cs.length := by
  fun_induction codes? before cs <;> simp_all <;> omega

/-- The rest after the first token is shorter than the text. -/
theorem length_lt_of_first? {cs rest : List Char} {t : Token} (h : first? cs = some (t, rest)) :
    rest.length < cs.length := by
  unfold first? at h
  split at h
  case h_10 =>
    obtain ⟨⟨_, _⟩, hc, heq⟩ := Option.map_eq_some_iff.1 h
    cases heq
    have := length_lt_of_codes? hc
    simp only [List.length_cons]
    omega
  case h_11 =>
    obtain ⟨⟨_, _⟩, hn, heq⟩ := Option.map_eq_some_iff.1 h
    cases heq
    have := length_lt_of_unsigned? hn
    simp only [List.length_cons]
    omega
  case h_12 =>
    obtain ⟨⟨_, _⟩, hn, heq⟩ := Option.map_eq_some_iff.1 h
    cases heq
    exact length_lt_of_unsigned? hn
  all_goals
    cases h
    simp only [List.length_cons]
    omega

/-- The tokens of a text, in reverse onto those of `before`. -/
def divide? (before : List Token) : List Char → Option (List Token)
  | [] => some before.reverse
  | c :: cs =>
    if isSpace c then
      divide? before cs
    else
      match h : first? (c :: cs) with
      | some (t, rest) =>
        have := length_lt_of_first? h
        divide? (t :: before) rest
      | none => none
termination_by cs => cs.length
decreasing_by
  · exact Nat.lt_succ_self _
  · assumption

/-! ## Writing -/

/-- A hexadecimal digit. -/
def hexDigit (n : Nat) : Char :=
  Nat.digitChar n

/-- A character as it stands inside a string. -/
def escape (c : Char) : List Char :=
  match c with
  | '"' => ['\\', '"']
  | '\\' => ['\\', '\\']
  | '\x08' => ['\\', 'b']
  | '\x0c' => ['\\', 'f']
  | '\n' => ['\\', 'n']
  | '\r' => ['\\', 'r']
  | '\t' => ['\\', 't']
  | c =>
    if c < ' ' then
      ['\\', 'u', '0', '0', hexDigit (c.toNat / 16), hexDigit (c.toNat % 16)]
    else
      [c]

/-- The characters of a token.  A string without a text is written as one half of a pair. -/
def characters : Token → List Char
  | openObject => ['{']
  | closeObject => ['}']
  | openArray => ['[']
  | closeArray => [']']
  | colon => [':']
  | comma => [',']
  | null => ['n', 'u', 'l', 'l']
  | bool true => ['t', 'r', 'u', 'e']
  | bool false => ['f', 'a', 'l', 's', 'e']
  | number n => n.text
  | string (some s) => '"' :: s.toList.flatMap escape ++ ['"']
  | string none => ['"', '\\', 'u', 'd', '8', '0', '0', '"']

end Token

/-- The tokens of a text, if it divides into tokens. -/
def tokens? (text : String) : Option (List Token) :=
  Token.divide? [] text.toList

end Freehand.Json
