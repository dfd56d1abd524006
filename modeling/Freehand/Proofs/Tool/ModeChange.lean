import Freehand.Proofs.Tool.Nodes
import Freehand.Proofs.Tool.Twins

/-!
# A mode chosen during a gesture

A gesture that is in progress goes on with the capture that it began with.  A mode that is chosen
meanwhile shows in two places before the next gesture: the fits use the tolerance of the new mode,
and the stroke is committed by the name of the new mode (`Tool.setMode_midway`,
`Tool.setMode_midway_relabels`).  Nothing else depends on it.  Where the pixels of the host make up
for the tolerance, the gesture makes the same calls as if the mode had been chosen after it, up to
the name of the stroke.
-/

namespace Freehand

variable {R σ τ : Type}

/-- Whether settings take a mode, and which, does not depend on the settings. -/
theorem Settings.set_mode [DecimalScalar R] {s s' : Settings R} {value : Option String}
    (hset : s.set "mode" value = .ok s') :
    ∃ m, ∀ r : Settings R, r.set "mode" value = .ok (r.inMode m) := by
  have hmode : Preference.ofKey? "mode" = some .mode := by decide
  unfold set at hset ⊢
  rw [hmode] at hset ⊢
  cases value with
  | none => exact ⟨.standard, fun r => rfl⟩
  | some text =>
    dsimp only at hset ⊢
    cases htext : StrokeMode.ofText? text with
    | none =>
      rw [htext] at hset
      cases hset
    | some m => exact ⟨m, fun r => rfl⟩

namespace Tool

variable [DecimalScalar R]

/-- A mode that is chosen changes the mode of the settings, and the capture at most. -/
theorem setSetting_mode {value : Option String} {m : StrokeMode}
    (hmode : ∀ r : Settings R, r.set "mode" value = .ok (r.inMode m)) (t : Tool R) :
    ∃ capture, t.setSetting "mode" value = .ok { t.inMode m with capture } := by
  rw [setSetting, hmode]
  dsimp only
  split
  · rw [syncCapture]
    split
    · exact ⟨t.capture, rfl⟩
    · exact ⟨_, rfl⟩
  · exact ⟨t.capture, rfl⟩

/-- A mode that is chosen during a gesture changes the mode of the settings only. -/
theorem setSetting_mode_of_busy {t t' : Tool R} {value : Option String} (hbusy : t.phase ≠ .idle)
    (hset : t.setSetting "mode" value = .ok t') :
    ∃ m, t' = t.inMode m ∧ ∀ r : Settings R, r.set "mode" value = .ok (r.inMode m) := by
  rw [setSetting_of_busy hbusy] at hset
  cases hset' : t.settings.set "mode" value with
  | error e =>
    rw [hset'] at hset
    cases hset
  | ok s =>
    obtain ⟨m, hmode⟩ := Settings.set_mode hset'
    rw [hmode t.settings] at hset
    cases hset
    exact ⟨m, rfl, hmode⟩

/-- A mode that is chosen while twins are in a gesture makes them the same. -/
theorem Twins.setSetting_mode {m n : StrokeMode} {ρ : σ → τ → Prop} {t t' u : Tool R} {v : σ}
    {w : τ} {value : Option String} (htwins : Twins m n ρ (t, v) (u, w)) (hbusy : t.phase ≠ .idle)
    (hset : t.setSetting "mode" value = .ok t') : u.setSetting "mode" value = .ok t' := by
  obtain ⟨m', rfl, hmode⟩ := setSetting_mode_of_busy hbusy hset
  obtain ⟨-, rfl, -⟩ := htwins
  have hbusy' : (t.inMode n).phase ≠ .idle := hbusy
  rw [setSetting_of_busy hbusy', hmode]
  rfl

/-- Let a mode be chosen during a gesture, and let the host differ from one on which it is not
chosen in that the size of its pixels makes up for the tolerance of the new mode, and in the name of
the stroke.  Up to and including the end of the gesture both tools reply the same and make the same
calls, but for that name.  When the mode is chosen then, the tools differ in the capture that they
hold at most.

A mode that is chosen once more before the end of the gesture is no part of the inputs, since both
tools fit with its tolerance then, whatever the size of their pixels.  From there on the tools are
the same (`Twins.setSetting_mode`). -/
theorem setMode_midway {h : Host R σ} {k : Host R τ} {ρ : σ → τ → Prop}
    {t t' : Tool R} {value : Option String} (hbusy : t.phase ≠ .idle)
    (hset : t.setSetting "mode" value = .ok t')
    (hm : h.Matches k t'.settings.mode t.settings.mode ρ) {v : σ} {w : τ} (hρ : ρ v w)
    {inputs : List (Input R σ)} {inputs' : List (Input R τ)}
    (halike : List.Forall₂ (Input.Alike ρ) inputs inputs')
    (hsets : ∀ i ∈ inputs, i.setsMode = false) (hlasts : Lasts h inputs (t', v, [])) :
    let early := run h inputs (t', v, [])
    let late := run k inputs' (t, w, [])
    replies h inputs (t', v, []) = replies k inputs' (t, w, []) ∧
    List.Forall₂ (Exchange.Alike t'.settings.mode t.settings.mode) early.2.2 late.2.2 ∧
    ∃ capture, late.1.setSetting "mode" value = .ok { early.1 with capture } := by
  intro early late
  obtain ⟨m, rfl, hmode⟩ := setSetting_mode_of_busy hbusy hset
  have htwins : Twins m t.settings.mode (Traced (R := R) m t.settings.mode ρ) (t.inMode m, v, [])
      (t, w, []) := ⟨rfl, rfl, hρ, .nil⟩
  obtain ⟨hreplies, hearly, hlate, hworld⟩ := htwins.run hm halike hsets hlasts
  refine ⟨hreplies, hworld.2, ?_⟩
  -- choosing the mode turns the twin into the tool that chose it before
  obtain ⟨capture, hchosen⟩ := setSetting_mode hmode late.1
  have hback : late.1.inMode m = early.1 :=
    calc late.1.inMode m = (early.1.inMode t.settings.mode).inMode m := congrArg (·.inMode m) hlate
      _ = early.1.inMode early.1.settings.mode := congrArg early.1.inMode hearly.symm
      _ = early.1 := inMode_self early.1
  rw [hback] at hchosen
  exact ⟨capture, hchosen⟩

end Tool

/-! ## A line over the integers -/

/-- Three pixels of a line are one pixel of a calligraphic stroke. -/
theorem Host.window_matches (write : Except DocumentError Unit) :
    (Host.window 1 write).Matches (Host.window 3 write) .calligraphic .line fun _ _ => True where
  viewport _ := rfl
  toDocument _ := rfl
  pointer _ := rfl
  tolerance _ := rfl
  answer _ c _ := by cases c <;> exact ⟨rfl, trivial⟩
  commit _ := ⟨.ok (), rfl, rfl, trivial⟩

/-- The two moves and the release of a line. -/
def Input.rest : List (Input Int Unit) :=
  [.event (.move ⟨10, 0⟩ 10 ⟨true, false, false⟩), .event (.move ⟨20, 10⟩ 20 ⟨true, false, false⟩),
    .event (.release ⟨20, 10⟩ 30 1)]

/-- The line is drawn on a host with larger pixels where the mode is chosen late. -/
theorem Tool.setMode_midway_scaled :
    let h := Host.window 1 (.ok ())
    let k := Host.window 3 (.ok ())
    let t := (ofSettings (Settings.light .line)).started (h.view ()) ⟨1⟩ ⟨0, 0⟩ 0
    List.Forall₂ (Exchange.Alike .calligraphic .line)
      (run h Input.rest (t.inMode .calligraphic, (), [])).2.2
      (run k Input.rest (t, (), [])).2.2 := by
  intro h k t
  have hbusy : t.phase ≠ .idle := by decide
  have hset : t.setSetting "mode" none = .ok (t.inMode .calligraphic) := by
    have hchosen : t.settings.set "mode" none = .ok (t.settings.inMode .standard) := rfl
    rw [setSetting_of_busy hbusy, hchosen]
    rfl
  have halike : List.Forall₂ (Input.Alike fun _ _ => True) Input.rest Input.rest :=
    .cons (.event _) (.cons (.event _) (.cons (.event _) .nil))
  have hlasts : Lasts h Input.rest (t.inMode .calligraphic, (), []) :=
    ⟨by decide, by decide +kernel, by decide +kernel, trivial⟩
  have hm : h.Matches k (t.inMode .calligraphic).settings.mode t.settings.mode fun _ _ => True :=
    Host.window_matches (.ok ())
  exact (setMode_midway hbusy hset hm trivial halike (by decide) hlasts).2.1

/-! ## The name of a stroke -/

/-- The name that a call commits a stroke by. -/
def Exchange.label? : Exchange R → Option String
  | ⟨.commit label, _⟩ => some label
  | _ => none

/-- Choose the standard mode during the line that two moves draw. -/
def Input.earlyChoice : List (Input Int Unit) :=
  [.event (.press ⟨0, 0⟩ 0 1), .event (.move ⟨10, 0⟩ 10 ⟨true, false, false⟩),
    .setSetting "mode" none, .event (.move ⟨20, 10⟩ 20 ⟨true, false, false⟩),
    .event (.release ⟨20, 10⟩ 30 1)]

/-- Choose the standard mode after the line that two moves draw. -/
def Input.lateChoice : List (Input Int Unit) :=
  [.event (.press ⟨0, 0⟩ 0 1), .event (.move ⟨10, 0⟩ 10 ⟨true, false, false⟩),
    .event (.move ⟨20, 10⟩ 20 ⟨true, false, false⟩), .event (.release ⟨20, 10⟩ 30 1),
    .setSetting "mode" none]

/-- On the same host, a line is committed as a calligraphic stroke if that mode is chosen before its
end. -/
theorem Tool.setMode_midway_relabels :
    let outcome := fun inputs => run (.window 1 (.ok ())) inputs
      (ofSettings (Settings.light .line), (), [])
    (outcome Input.earlyChoice).2.2.filterMap Exchange.label? = ["Draw calligraphic stroke"] ∧
    (outcome Input.lateChoice).2.2.filterMap Exchange.label? = ["Draw freehand line"] := by
  decide +kernel

end Freehand
