import Freehand.Proofs.Json.Spelling

/-!
# Reading back JSON values

A text is a layout of a value if it spells the tokens of the value (`Json.LaidOut`).  The reader
gets the value back from all its layouts, the compact one among them.

* The reader takes the tokens of a value in front of any others and is then after that value; over
  arrays and objects this is an induction on the value, for any stack of open containers.
* The row of tokens of a value spells unambiguously, since a number in it is followed by a comma or
  by a closing mark.
* The compact text is a layout if the numbers of the value are such as JSON has them.  Those that
  the library writes are.
-/

namespace Freehand.Json

open Token

/-- A text spells a value. -/
def LaidOut (v : Json) (text : String) : Prop :=
  LaysOut v.tokens text.toList

/-! ## The reader on the tokens of a value -/

namespace Reader

theorem run_cons (r : Reader) (t : Token) (ts : List Token) :
    r.run (t :: ts) = (r.step t).bind fun r' => r'.run ts := by
  rw [run, List.foldlM_cons]
  rfl

/-- An array that has just been opened takes an item as one that expects a further item does. -/
theorem run_firstItem {items : List Json} (h : items ≠ []) (stack : List Frame)
    (rest : List Token) :
    run ⟨.firstItem, stack⟩ (itemTokens items ++ rest) =
      run ⟨.value, .array [] :: stack⟩ (itemTokens items ++ rest) := by
  obtain ⟨v, ts, hts⟩ : ∃ v ts, itemTokens items = tokens v ++ ts := by
    match items with
    | [v] => exact ⟨v, [], by rw [itemTokens, List.append_nil]⟩
    | v :: w :: vs => exact ⟨v, _, itemTokens.eq_3 v w vs⟩
  rw [hts]
  cases v <;> simp only [tokens, List.cons_append, run_cons] <;> rfl

mutual

/-- The tokens of a value are read back as that value, wherever it stands. -/
theorem run_tokens (v : Json) (stack : List Frame) (rest : List Token) :
    run ⟨.value, stack⟩ (v.tokens ++ rest) = run ⟨.complete v, stack⟩ rest := by
  cases v with
  | null => rw [tokens, List.cons_append, run_cons]; rfl
  | bool b => rw [tokens, List.cons_append, run_cons]; rfl
  | number n => rw [tokens, List.cons_append, run_cons]; rfl
  | string s => rw [tokens, List.cons_append, run_cons]; rfl
  | array items =>
    rw [tokens, List.cons_append, run_cons, List.append_assoc]
    by_cases h : items = []
    · subst h
      rfl
    · exact (run_firstItem h stack _).trans (run_itemTokens items h [] stack rest)
  | object members =>
    rw [tokens, List.cons_append, run_cons, List.append_assoc]
    by_cases h : members = []
    · subst h
      rfl
    · exact run_memberTokens members h [] true stack rest

theorem run_itemTokens (items : List Json) (h : items ≠ []) (before : List Json)
    (stack : List Frame) (rest : List Token) :
    run ⟨.value, .array before :: stack⟩ (itemTokens items ++ .closeArray :: rest) =
      run ⟨.complete (.array (before.reverse ++ items)), stack⟩ rest := by
  match items with
  | [v] =>
    rw [itemTokens, run_tokens, run_cons]
    simp [step, afterValue]
  | v :: w :: vs =>
    have ih := run_itemTokens (w :: vs) (List.cons_ne_nil w vs) (v :: before) stack rest
    rw [itemTokens, List.append_assoc, run_tokens, List.cons_append, run_cons]
    simpa [step, afterValue] using ih

/-- The members of an object are read one after the other, and kept in their order. -/
theorem run_memberTokens (members : List (Option String × Json)) (h : members ≠ [])
    (before : List (Option String × Json)) (opened : Bool) (stack : List Frame)
    (rest : List Token) :
    run ⟨.member before opened, stack⟩ (memberTokens members ++ .closeObject :: rest) =
      run ⟨.complete (.object (before.reverse ++ members)), stack⟩ rest := by
  match members with
  | [(name, v)] =>
    rw [memberTokens]
    simp only [List.cons_append, run_cons, step, Option.bind_some]
    rw [run_tokens, run_cons]
    simp [step, afterValue]
  | (name, v) :: m :: ms =>
    have ih := run_memberTokens (m :: ms) (List.cons_ne_nil m ms) ((name, v) :: before) false stack
      rest
    rw [memberTokens]
    simp only [List.cons_append, List.append_assoc, run_cons, step, Option.bind_some]
    rw [run_tokens, run_cons]
    simpa [step, afterValue] using ih

end

end Reader

/-! ## Numbers among the tokens of a value -/

theorem isChain_cons_of_ne {t : Token} {ts : List Token} (ht : ∀ n, t ≠ .number n)
    (h : ts.IsChain Follows) : (t :: ts).IsChain Follows :=
  List.isChain_cons.2 ⟨fun _ _ n hn => absurd hn (ht n), h⟩

/-- The first token may stand behind a number. -/
def Closes (ts : List Token) : Prop :=
  ∀ t ∈ ts.head?, t = .comma ∨ t = .closeArray ∨ t = .closeObject

mutual

/-- Between the tokens of a value there is nothing that would have to be kept apart. -/
theorem isChain_tokens (v : Json) {rest : List Token} (hrest : Closes rest)
    (h : rest.IsChain Follows) : (v.tokens ++ rest).IsChain Follows := by
  cases v with
  | null => exact isChain_cons_of_ne (by simp) h
  | bool b => exact isChain_cons_of_ne (by simp) h
  | number n => exact List.isChain_cons.2 ⟨fun t ht _ _ => hrest t ht, h⟩
  | string s => exact isChain_cons_of_ne (by simp) h
  | array items =>
    rw [tokens, List.cons_append, List.append_assoc]
    exact isChain_cons_of_ne (by simp) (isChain_itemTokens items (by simp [Closes])
      (isChain_cons_of_ne (by simp) h))
  | object members =>
    rw [tokens, List.cons_append, List.append_assoc]
    exact isChain_cons_of_ne (by simp) (isChain_memberTokens members (by simp [Closes])
      (isChain_cons_of_ne (by simp) h))

theorem isChain_itemTokens (vs : List Json) {rest : List Token} (hrest : Closes rest)
    (h : rest.IsChain Follows) : (itemTokens vs ++ rest).IsChain Follows := by
  match vs with
  | [] => exact h
  | [v] => exact isChain_tokens v hrest h
  | v :: w :: vs =>
    rw [itemTokens, List.append_assoc]
    exact isChain_tokens v (by simp [Closes])
      (isChain_cons_of_ne (by simp) (isChain_itemTokens (w :: vs) hrest h))

theorem isChain_memberTokens (ms : List (Option String × Json)) {rest : List Token}
    (hrest : Closes rest) (h : rest.IsChain Follows) :
    (memberTokens ms ++ rest).IsChain Follows := by
  match ms with
  | [] => exact h
  | [(name, v)] =>
    exact isChain_cons_of_ne (by simp) (isChain_cons_of_ne (by simp) (isChain_tokens v hrest h))
  | (name, v) :: m :: ms =>
    rw [memberTokens, List.cons_append, List.cons_append, List.append_assoc]
    exact isChain_cons_of_ne (by simp) (isChain_cons_of_ne (by simp)
      (isChain_tokens v (by simp [Closes])
        (isChain_cons_of_ne (by simp) (isChain_memberTokens (m :: ms) hrest h))))

end

/-- A value is read back from all its layouts. -/
theorem parse?_of_laidOut {v : Json} {text : String} (h : v.LaidOut text) :
    parse? text = some v := by
  have hchain : v.tokens.IsChain Follows := by
    have hnil : Closes [] := by simp [Closes]
    simpa using isChain_tokens v hnil .nil
  have htokens : tokens? text = some v.tokens := divide?_of_laysOut h hchain []
  have hrun : Reader.start.run v.tokens = some ⟨.complete v, []⟩ := by
    have h := Reader.run_tokens v [] []
    rw [List.append_nil] at h
    exact h
  rw [parse?, htokens]
  simp only [Option.bind_eq_bind, Option.bind_some, hrun]
  rfl

/-! ## The compact layout -/

theorem spellsCode_escape (c : Char) : SpellsCode c.toNat (escape c) := by
  unfold escape
  split
  case h_8 hquote hescape _ _ _ _ _ =>
    split
    next hlt =>
      have hhex : ∀ n < 32, hex? '0' '0' (hexDigit (n / 16)) (hexDigit (n % 16)) = some n := by
        decide
      exact .hex (hhex c.toNat (UInt32.lt_iff_toNat_lt.1 hlt))
    next hlt => exact .plain hlt hquote hescape
  all_goals exact .letter rfl

theorem spellsCodes_escape (cs : List Char) :
    SpellsCodes (cs.map Char.toNat) (cs.flatMap escape) := by
  induction cs with
  | nil => exact .nil
  | cons c cs ih => exact .cons (spellsCode_escape c) ih

/-- Characters are no halves of surrogate pairs. -/
theorem characters?_toNat (cs : List Char) : characters? (cs.map Char.toNat) = some cs := by
  induction cs with
  | nil => rfl
  | cons c cs ih =>
    have hvalid : c.toNat < 0xD800 ∨ 0xDFFF < c.toNat := c.valid.imp id And.left
    have hhigh : isHighHalf c.toNat = false := by
      simp [isHighHalf]
      omega
    have hlow : isLowHalf c.toNat = false := by
      simp [isLowHalf]
      omega
    rw [List.map_cons, characters?.eq_def]
    simp [hhigh, hlow, ih]

/-- The way in which a token is written is a spelling of it. -/
theorem spells_characters {t : Token} (h : ∀ n, t = .number n → n.WellFormed) :
    Spells t t.characters := by
  cases t with
  | number n => exact ⟨h n rfl, 'e', .inl rfl, (Numeral.spelling_eq_text n).symm⟩
  | string text =>
    cases text with
    | none => exact ⟨[0xD800], _, .cons (.hex (a := 'd') (b := '8') (c := '0') (d := '0') rfl) .nil,
        rfl, rfl⟩
    | some s =>
      refine ⟨_, _, spellsCodes_escape s.toList, ?_, rfl⟩
      rw [characters?_toNat, Option.map_some, String.ofList_toList]
  | _ => rfl

/-- All numbers in a value are such as JSON has them. -/
def WellFormed (v : Json) : Prop :=
  ∀ n, Token.number n ∈ v.tokens → n.WellFormed

/-- A record of values that are well-formed is so too. -/
theorem wellFormed_record {members : List (String × Json)} (h : ∀ m ∈ members, m.2.WellFormed) :
    (record members).WellFormed := by
  have hmember : ∀ (ms : List (Option String × Json)) (n : Numeral),
      Token.number n ∈ memberTokens ms → ∃ m ∈ ms, Token.number n ∈ m.2.tokens := by
    intro ms
    induction ms with
    | nil => simp [memberTokens]
    | cons m ms ih =>
      obtain ⟨name, v⟩ := m
      intro n hn
      cases ms with
      | nil => exact ⟨(name, v), List.mem_cons_self, by simpa [memberTokens] using hn⟩
      | cons m' ms =>
        have hor : Token.number n ∈ v.tokens ∨ Token.number n ∈ memberTokens (m' :: ms) := by
          simpa [memberTokens] using hn
        rcases hor with hv | hms
        · exact ⟨(name, v), List.mem_cons_self, hv⟩
        · obtain ⟨m, hm, hn⟩ := ih n hms
          exact ⟨m, List.mem_cons_of_mem _ hm, hn⟩
  intro n hn
  obtain ⟨m, hm, hn⟩ := hmember _ n (by simpa [record, tokens] using hn)
  obtain ⟨m, hmem, rfl⟩ := List.mem_map.1 hm
  exact h m hmem n hn

theorem toList_compact (v : Json) : v.compact.toList = v.tokens.flatMap characters := by
  have hfold : ∀ (ts : List Token) (s : String),
      (ts.foldl (fun s t => s ++ String.ofList t.characters) s).toList =
        s.toList ++ ts.flatMap characters := by
    intro ts
    induction ts with
    | nil => simp
    | cons t ts ih => simp [ih]
  simpa [compact] using hfold v.tokens ""

theorem laidOut_compact {v : Json} (h : v.WellFormed) : v.LaidOut v.compact := by
  have hspelled : ∀ ts : List Token, (∀ n, Token.number n ∈ ts → n.WellFormed) →
      LaysOut ts (ts.flatMap characters) := by
    intro ts
    induction ts with
    | nil => exact fun _ => .nil
    | cons t ts ih =>
      intro hts
      refine .token (spells_characters fun n hn => hts n (by simp [hn])) ?_
      exact ih fun n hn => hts n (List.mem_cons_of_mem _ hn)
  rw [LaidOut, toList_compact]
  exact hspelled v.tokens h

end Freehand.Json
