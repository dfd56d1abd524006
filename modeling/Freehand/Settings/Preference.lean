import Freehand.Decimal.Basic
import Freehand.Settings.Basic
import Freehand.Text.Blank

/-!
# Preferences

Settings are changed one entry at a time, by a key and a text as a preferences store holds them.

* An entry without a text restores the default of its key.
* A number is read after its blanks are trimmed, in decimal notation or as one of the names of
  infinity and of what is no number.  It is then brought into the range of its quantity.
* An entry that cannot be read changes nothing.
-/

namespace Freehand

/-- Why settings could not be changed or read. -/
inductive SettingsError where
  /-- No setting has the given key. -/
  | unknownKey (key : String)
  /-- The text is no value for the key. -/
  | invalidValue (key value : String)
  /-- The text does not hold settings. -/
  | malformed
  deriving DecidableEq, Repr

/-- What is wrong, in words. -/
def SettingsError.message : SettingsError → String
  | unknownKey key => s!"Unknown setting key: {key}"
  | invalidValue key value => s!"Invalid value for {key}: {value}"
  | malformed => "Failed to read settings"

/-- The entries of a preferences store. -/
inductive Preference where
  /-- A quantity. -/
  | quantity (q : Quantity)
  /-- The stroke mode. -/
  | mode
  /-- Whether a timer drives the sampling. -/
  | timer
  deriving DecidableEq, Repr

/-- The mode that a text names. -/
def StrokeMode.ofText? (text : String) : Option StrokeMode :=
  match Text.lower (Text.trim text) with
  | "line" => some .line
  | "calligraphic" | "calligraphy" => some .calligraphic
  | _ => none

/-- The text is one of those that stand for yes. -/
def Preference.isYes (text : String) : Bool :=
  ["1", "true", "yes"].contains (Text.trim text)

namespace Preference

/-- The key of an entry. -/
def key : Preference → String
  | quantity q => q.name
  | mode => "mode"
  | timer => "usetimer"

/-- All entries. -/
def all : List Preference :=
  Quantity.all.map quantity ++ [mode, timer]

/-- The entry with a given key. -/
def ofKey? (key : String) : Option Preference :=
  all.find? fun p => p.key == key

variable {R : Type} [DecimalScalar R]

/-- A number text without its sign. -/
def magnitude? (negative : Bool) (cs : List Char) : Option R :=
  match Text.lower (String.ofList cs) with
  | "inf" | "infinity" =>
    some (if negative then -DecimalScalar.infinity else DecimalScalar.infinity)
  | "nan" => some DecimalScalar.notANumber
  | _ => (Decimal.scan? negative cs).map DecimalScalar.ofDecimal

/-- The number that a text denotes. -/
def number? (text : String) : Option R :=
  match (Text.trim text).toList with
  | '-' :: cs => magnitude? true cs
  | '+' :: cs => magnitude? false cs
  | cs => magnitude? false cs

end Preference

/-- Set the entry with a given key. -/
def Settings.set {R : Type} [DecimalScalar R] (s : Settings R) (key : String)
    (value : Option String) : Except SettingsError (Settings R) :=
  match Preference.ofKey? key, value with
  | none, _ => .error (.unknownKey key)
  | some (.quantity q), none => .ok (s.put q (q.clamp q.standard))
  | some (.quantity q), some text =>
    match Preference.number? text with
    | some v => .ok (s.put q (q.clamp v))
    | none => .error (.invalidValue key text)
  | some .mode, none => .ok { s with mode := .standard }
  | some .mode, some text =>
    match StrokeMode.ofText? text with
    | some mode => .ok { s with mode }
    | none => .error (.invalidValue key text)
  | some .timer, none => .ok { s with useTimer := false }
  | some .timer, some text => .ok { s with useTimer := Preference.isYes text }

end Freehand
