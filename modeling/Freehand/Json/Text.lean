import Freehand.Json.Token

/-!
# JSON texts

Reading a value from its text, and writing it.

* `Json.parse?` reads a whole text.  The reader is a machine that takes the tokens one by one; the
  containers that are still open stand on a stack, so values may be nested to any depth.
* `Json.compact` writes a value without spaces, `Json.pretty` with one member or item a line.
-/

namespace Freehand.Json

/-! ## Reading -/

/-- A container that is still open, with what precedes the value being read, in reverse. -/
inductive Frame where
  /-- An array. -/
  | array (before : List Json)
  /-- An object, and the name of the member being read. -/
  | object (before : List (Option String × Json)) (name : Option String)

/-- What has been read of the innermost value. -/
inductive Place where
  /-- A value must follow. -/
  | value
  /-- An array has been opened. -/
  | firstItem
  /-- A member must follow those of `before`; the object may end instead if it was just opened. -/
  | member (before : List (Option String × Json)) (opened : Bool)
  /-- The name of a member has been read. -/
  | named (before : List (Option String × Json)) (name : Option String)
  /-- A value is complete. -/
  | complete (v : Json)

/-- The state of the reader. -/
structure Reader where
  /-- The innermost value. -/
  place : Place
  /-- The containers around it, innermost first. -/
  stack : List Frame

namespace Reader

/-- The reader before a text. -/
def start : Reader :=
  ⟨.value, []⟩

/-- A token where a value must follow. -/
def beginValue (stack : List Frame) : Token → Option Reader
  | .null => some ⟨.complete .null, stack⟩
  | .bool b => some ⟨.complete (.bool b), stack⟩
  | .number n => some ⟨.complete (.number n), stack⟩
  | .string s => some ⟨.complete (.string s), stack⟩
  | .openArray => some ⟨.firstItem, stack⟩
  | .openObject => some ⟨.member [] true, stack⟩
  | _ => none

/-- A token after the complete value `v`. -/
def afterValue (v : Json) : List Frame → Token → Option Reader
  | .array before :: stack, .comma => some ⟨.value, .array (v :: before) :: stack⟩
  | .array before :: stack, .closeArray => some ⟨.complete (.array (v :: before).reverse), stack⟩
  | .object before name :: stack, .comma => some ⟨.member ((name, v) :: before) false, stack⟩
  | .object before name :: stack, .closeObject =>
    some ⟨.complete (.object ((name, v) :: before).reverse), stack⟩
  | _, _ => none

/-- Take one token. -/
def step (r : Reader) (t : Token) : Option Reader :=
  match r.place, t with
  | .value, t => beginValue r.stack t
  | .firstItem, .closeArray => some ⟨.complete (.array []), r.stack⟩
  | .firstItem, t => beginValue (.array [] :: r.stack) t
  | .member before _, .string name => some ⟨.named before name, r.stack⟩
  | .member _ true, .closeObject => some ⟨.complete (.object []), r.stack⟩
  | .named before name, .colon => some ⟨.value, .object before name :: r.stack⟩
  | .complete v, t => afterValue v r.stack t
  | _, _ => none

/-- The value read, if it is complete and no container is open. -/
def result? (r : Reader) : Option Json :=
  match r.place, r.stack with
  | .complete v, [] => some v
  | _, _ => none

/-- Take a run of tokens. -/
def run (r : Reader) (ts : List Token) : Option Reader :=
  ts.foldlM step r

end Reader

/-- The value that a text denotes, if it is a JSON text. -/
def parse? (text : String) : Option Json := do
  let ts ← tokens? text
  let r ← Reader.start.run ts
  r.result?

/-! ## Writing -/

mutual

/-- The tokens of a value. -/
def tokens : Json → List Token
  | .null => [.null]
  | .bool b => [.bool b]
  | .number n => [.number n]
  | .string s => [.string s]
  | .array items => .openArray :: (itemTokens items ++ [.closeArray])
  | .object members => .openObject :: (memberTokens members ++ [.closeObject])

/-- The tokens of the items of an array. -/
def itemTokens : List Json → List Token
  | [] => []
  | [v] => tokens v
  | v :: w :: vs => tokens v ++ .comma :: itemTokens (w :: vs)

/-- The tokens of the members of an object. -/
def memberTokens : List (Option String × Json) → List Token
  | [] => []
  | [(name, v)] => .string name :: .colon :: tokens v
  | (name, v) :: m :: ms => .string name :: .colon :: (tokens v ++ .comma :: memberTokens (m :: ms))

end

/-- A value on one line without spaces. -/
def compact (v : Json) : String :=
  v.tokens.foldl (fun s t => s ++ String.ofList t.characters) ""

/-- A line end and the indentation of the next line. -/
def lineEnd (depth : Nat) : String :=
  "\n" ++ String.ofList (List.replicate (2 * depth) ' ')

mutual

/-- A value at some depth, each item and each member on its own line. -/
def prettyAt (depth : Nat) : Json → String
  | .array (v :: vs) => "[" ++ prettyItems (depth + 1) (v :: vs) ++ lineEnd depth ++ "]"
  | .object (m :: ms) => "\x7b" ++ prettyMembers (depth + 1) (m :: ms) ++ lineEnd depth ++ "\x7d"
  | v => v.compact

/-- The items of an array, each on its own line. -/
def prettyItems (depth : Nat) : List Json → String
  | [] => ""
  | [v] => lineEnd depth ++ prettyAt depth v
  | v :: w :: vs => lineEnd depth ++ prettyAt depth v ++ "," ++ prettyItems depth (w :: vs)

/-- The members of an object, each on its own line. -/
def prettyMembers (depth : Nat) : List (Option String × Json) → String
  | [] => ""
  | [(name, v)] => lineEnd depth ++ compact (.string name) ++ ": " ++ prettyAt depth v
  | (name, v) :: m :: ms =>
    lineEnd depth ++ compact (.string name) ++ ": " ++ prettyAt depth v ++ "," ++
      prettyMembers depth (m :: ms)

end

/-- A value over several lines, indented by two spaces a level. -/
def pretty (v : Json) : String :=
  prettyAt 0 v

end Freehand.Json
