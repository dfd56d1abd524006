import Freehand.Settings.Json

/-!
# The environment

The options of a run of the program, which are read from environment variables.
-/

namespace Freehand

/-- The options of a run. -/
structure Options where
  /-- The only mode to replay, if one is chosen. -/
  mode : Option StrokeMode
  /-- Say more about what happens. -/
  debug : Bool
  /-- The text of the settings, if there is one. -/
  settingsText : Option String
  deriving Repr

namespace Options

/-- The variable that chooses a mode. -/
def modeVariable : String :=
  "NIB_STROKE_MODE"

/-- The variable that asks for more to be said. -/
def debugVariable : String :=
  "NIB_DEBUG"

/-- The variable that holds settings. -/
def settingsVariable : String :=
  "NIB_SETTINGS"

/-- The text is one of those that stand for yes. -/
def isYes (text : String) : Bool :=
  ["1", "true", "yes", "on"].contains (Text.trim text)

/-- The options for given values of the three variables.  Settings that are blank count as none,
and so does a mode that does not exist. -/
def ofVariables (mode debug settings : Option String) : Options where
  mode := mode.bind StrokeMode.ofText?
  debug := debug.any isYes
  settingsText := settings.filter fun text => !(Text.trim text).isEmpty

/-- The modes to replay, in order. -/
def modes (o : Options) : List StrokeMode :=
  match o.mode with
  | some mode => [mode]
  | none => [.line, .calligraphic]

/-- The settings to replay with, before the mode is chosen. -/
def settings {R : Type} [DecimalScalar R] (o : Options) : Except SettingsError (Settings R) :=
  match o.settingsText with
  | some text => Settings.parse text
  | none => .ok .standard

end Options

end Freehand
