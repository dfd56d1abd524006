import Freehand.Decimal.Binary64
import Freehand.Settings.Preference

/-!
# Calls that change settings

Preferences are set by key, and two quantities are nudged by keys of the keyboard.  A call that
fails leaves the settings as they are.
-/

namespace Freehand.Settings

/-- A call that changes settings. -/
inductive Call where
  /-- Set the entry with a key. -/
  | set (key : String) (value : Option String)
  /-- Turn the tip. -/
  | nudgeAngle (delta : Float)
  /-- Make the tip wider. -/
  | nudgeWidth (delta : Float)

/-- The settings that a call asks for. -/
def call (s : Settings Float) : Call → Except SettingsError (Settings Float)
  | .set key value => s.set key value
  | .nudgeAngle delta => .ok (s.nudge .angle delta)
  | .nudgeWidth delta => .ok (s.nudge .width delta)

/-- The error that a call returns and the settings it leaves. -/
def perform (s : Settings Float) (c : Call) : Option SettingsError × Settings Float :=
  match s.call c with
  | .ok t => (none, t)
  | .error e => (some e, s)

/-- The settings that calls leave, one after the other. -/
def performAll (s : Settings Float) (calls : List Call) : Settings Float :=
  calls.foldl (fun s c => (s.perform c).2) s

end Freehand.Settings
