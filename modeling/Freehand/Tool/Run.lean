import Freehand.Tool

/-!
# Runs of the tool

A run gives a tool one input after the other: events, ticks of the timer, settings and
cancellations, in any order.  In between the host may change in any way.  All calls to the host are
written down with their answers.
-/

namespace Freehand

variable {R σ : Type}

/-- What a tool reacts to, and what happens in between. -/
inductive Input (R σ : Type) where
  /-- An event. -/
  | event (e : Event R)
  /-- The timer ticked. -/
  | tick
  /-- A preference is set. -/
  | setSetting (key : String) (value : Option String)
  /-- The gesture is abandoned. -/
  | cancel
  /-- The host changes. -/
  | elapse (f : σ → σ)

namespace Tool

/-- A tool, its host and the calls so far after one more input. -/
def step [DecimalScalar R] (h : Host R σ) (x : Tool R × σ × List (Exchange R)) :
    Input R σ → Tool R × σ × List (Exchange R)
  | .event e =>
    let r := handle h.traced x.1 x.2 e
    (r.tool, r.world)
  | .tick =>
    let r := tick h.traced x.1 x.2
    (r.tool, r.world)
  | .setSetting key value =>
    match x.1.setSetting key value with
    | .ok t => (t, x.2)
    | .error _ => x
  | .cancel => cancel h.traced x.1 x.2
  | .elapse f => (x.1, f x.2.1, x.2.2)

/-- A tool, its host and the calls so far after some inputs. -/
def run [DecimalScalar R] (h : Host R σ) (inputs : List (Input R σ))
    (x : Tool R × σ × List (Exchange R)) : Tool R × σ × List (Exchange R) :=
  inputs.foldl (step h) x

end Tool

end Freehand
