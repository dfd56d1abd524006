import Freehand.Json.Numeral
import Freehand.Json.Text
import Freehand.Settings.Preference

/-!
# Settings as JSON

Settings are kept as a JSON object with one member for each field.

* Members may come in any order, and a field that is missing takes its default.
* A member that names no field is passed over; one that repeats a field is refused.
* The values may also be given as an array, in the order of the fields.
* A quantity is read by `Numeral.scalar?`, so it may differ from what is written in its last
  digits, and is refused where it is out of range.
* The sampling period must be written as plain digits.
* Values are kept as they are, also outside the range that a user can choose.
-/

namespace Freehand

/-- The fields of settings. -/
inductive SettingsField where
  /-- A quantity. -/
  | quantity (q : Quantity)
  /-- The stroke mode. -/
  | mode
  /-- Whether a timer drives the sampling. -/
  | useTimer
  /-- The sampling period. -/
  | sampleInterval
  /-- Whether early moves are dropped. -/
  | decimateMoves
  deriving DecidableEq, Repr

namespace StrokeMode

/-- The mode with exactly the given name. -/
def ofName? (name : String) : Option StrokeMode :=
  [line, calligraphic].find? fun m => m.name == name

/-- The mode that a JSON value stands for: its name, or an object with that name for `null`. -/
def ofJson? : Json → Option StrokeMode
  | .string (some name) => ofName? name
  | .object [(some name, .null)] => ofName? name
  | _ => none

end StrokeMode

namespace SettingsField

/-- All fields in order. -/
def all : List SettingsField :=
  Quantity.all.map quantity ++ [mode, useTimer, sampleInterval, decimateMoves]

/-- The name of a field. -/
def name : SettingsField → String
  | quantity q => q.name
  | mode => "mode"
  | useTimer => "use_timer"
  | sampleInterval => "sample_interval_ms"
  | decimateMoves => "decimate_moves"

/-- The field with a given name. -/
def ofName? (name : String) : Option SettingsField :=
  all.find? fun f => f.name == name

variable {R : Type} [DecimalScalar R]

/-- The value of a field. -/
def encode (s : Settings R) : SettingsField → Json
  | quantity q => .scalar (s.get q)
  | mode => .text s.mode.name
  | useTimer => .bool s.useTimer
  | sampleInterval => .nat s.sampleInterval.toNat
  | decimateMoves => .bool s.decimateMoves

/-- The scalar that a JSON value stands for. -/
def scalar? : Json → Option R
  | .number n => n.scalar?
  | _ => none

/-- The word of 64 bits that a JSON value stands for. -/
def word? : Json → Option UInt64
  | .number n =>
    match n.natural? with
    | some v => if v < UInt64.size then some (UInt64.ofNat v) else none
    | none => none
  | _ => none

/-- The truth value that a JSON value stands for. -/
def bool? : Json → Option Bool
  | .bool b => some b
  | _ => none

/-- The settings with a field read from a JSON value. -/
def decode (v : Json) (s : Settings R) : SettingsField → Option (Settings R)
  | quantity q => (scalar? v).map (s.put q)
  | mode => (StrokeMode.ofJson? v).map fun mode => { s with mode }
  | useTimer => (bool? v).map fun useTimer => { s with useTimer }
  | sampleInterval => (word? v).map fun sampleInterval => { s with sampleInterval }
  | decimateMoves => (bool? v).map fun decimateMoves => { s with decimateMoves }

end SettingsField

namespace Settings

variable {R : Type} [DecimalScalar R]

/-- Read members one by one; `seen` holds the fields read already. -/
def ofMembers? (seen : List SettingsField) (s : Settings R) :
    List (Option String × Json) → Option (Settings R)
  | [] => some s
  | (none, _) :: _ => none
  | (some name, v) :: rest =>
    match SettingsField.ofName? name with
    | none => ofMembers? seen s rest
    | some f =>
      if f ∈ seen then
        none
      else
        match f.decode v s with
        | some s => ofMembers? (f :: seen) s rest
        | none => none

/-- Read values for the given fields in order; the values may end early. -/
def ofItems? (s : Settings R) : List SettingsField → List Json → Option (Settings R)
  | _, [] => some s
  | [], _ :: _ => none
  | f :: fs, v :: vs =>
    match f.decode v s with
    | some s => ofItems? s fs vs
    | none => none

/-- The settings that a JSON value stands for. -/
def ofJson? : Json → Option (Settings R)
  | .object members => ofMembers? [] standard members
  | .array items => ofItems? standard SettingsField.all items
  | _ => none

/-- The JSON value that stands for settings. -/
def toJson (s : Settings R) : Json :=
  .record (SettingsField.all.map fun f => (f.name, f.encode s))

/-- Read settings from their text. -/
def parse (text : String) : Except SettingsError (Settings R) :=
  match Json.parse? text with
  | some v =>
    match ofJson? v with
    | some s => .ok s
    | none => .error .malformed
  | none => .error .malformed

/-- The text of settings. -/
def render (s : Settings R) : String :=
  s.toJson.compact

end Settings

end Freehand
