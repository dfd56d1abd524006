import Freehand.Decimal.Binary64
import Freehand.Demonstration

/-!
# The program

Reads its options from the environment, prints one report for each mode, and fails if the settings
cannot be read.
-/

open Freehand

/-- Print the reports, or say what is wrong and fail. -/
def main : IO UInt32 := do
  let options := Options.ofVariables (← IO.getEnv Options.modeVariable)
    (← IO.getEnv Options.debugVariable) (← IO.getEnv Options.settingsVariable)
  match (Demonstration.run options : Except DemonstrationError (List (Report Float))) with
  | .ok reports =>
    for report in reports do
      IO.println report.toJson.pretty
    return 0
  | .error e =>
    IO.eprintln e.message
    return 1
