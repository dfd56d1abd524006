import Freehand.Proofs.Scalar.Integers
import Freehand.Proofs.Tool.Act

/-!
# The nodes of strokes

A node is created for a finished stroke only.  It is given the path of the stroke at once, which is
not empty, and the gesture is committed (`Exchange.Filled`, `Tool.run_nodes`).  So a node holds a
stroke as long as the document takes the paths that it is given.

A node whose path the document refuses is left behind empty: it is not removed, and the tool
forgets it (`Tool.run_not_tended`).
-/

namespace Freehand

open Exchange

variable {R σ : Type}

namespace Exchange

/-! ## What becomes of a node -/

/-- The node that the call created. -/
def created? : Exchange R → Option NodeHandle
  | ⟨.createPathNode _ _, answer⟩ => Except.toOption answer
  | _ => none

/-- The document took the path of a call that gives one. -/
def taken : Exchange R → Bool
  | ⟨.setPathData _ _, answer⟩ => Except.isOk answer
  | _ => true

/-- The call gives the node a path that is not empty, and the document takes it; or it removes the
node. -/
def tends (node : NodeHandle) : Exchange R → Bool
  | ⟨.setPathData n elements, answer⟩ => n = node && !elements.isEmpty && Except.isOk answer
  | ⟨.removeNode n, _⟩ => n = node
  | _ => false

/-- Every node that is created gets a path or is removed later on. -/
def tended : List (Exchange R) → Bool
  | [] => true
  | x :: calls => x.created?.all (fun node => calls.any (tends node)) && tended calls

/-- Every node that is created is given a path next, which is not empty, and then the gesture is
committed. -/
def Filled : List (Exchange R) → Prop
  | [] => True
  | x :: calls => (∀ node, x.created? = some node → ∃ elements answer label answer' rest,
      elements ≠ [] ∧
      calls = ⟨.setPathData node elements, answer⟩ :: ⟨.commit label, answer'⟩ :: rest) ∧
    Filled calls

variable {layer : LayerHandle} {calls calls' : List (Exchange R)}

theorem Filled.append (h : Filled calls) (h' : Filled calls') : Filled (calls ++ calls') := by
  induction calls with
  | nil => exact h'
  | cons x calls ih =>
    refine ⟨fun node hnode => ?_, ih h.2⟩
    obtain ⟨elements, answer, label, answer', rest, helements, rfl⟩ := h.1 node hnode
    exact ⟨elements, answer, label, answer', rest ++ calls', helements, rfl⟩

/-- Calls that create no node. -/
theorem Filled.of_none (h : ∀ x ∈ calls, x.created? = none) : Filled calls := by
  induction calls with
  | nil => trivial
  | cons x calls ih =>
    obtain ⟨hx, hcalls⟩ := List.forall_mem_cons.1 h
    refine ⟨fun node hnode => ?_, ih hcalls⟩
    rw [hx] at hnode
    cases hnode

/-- A stroke is written and then committed. -/
theorem Written.filled (h : Written layer calls) (hdrawn : Drawn calls) (label : String)
    (answer : Except DocumentError Unit) (region : Option (Rect R)) :
    Filled (calls ++ [⟨.commit label, answer⟩, ⟨.requestRedraw region, ()⟩]) := by
  cases h with
  | nothing => exact .of_none (by simp [created?])
  | refused mode e => exact .of_none (by simp [created?, Except.toOption])
  | stored mode node elements answer' =>
    refine ⟨fun created hcreated => ?_, .of_none (by simp [created?])⟩
    cases hcreated
    have helements : elements ≠ [] := by simpa [Drawn] using hdrawn
    exact ⟨elements, answer', label, answer, _, helements, rfl⟩

/-- A document that takes every path leaves no node empty. -/
theorem Filled.tended (h : Filled calls) (htaken : ∀ x ∈ calls, x.taken = true) :
    Exchange.tended calls = true := by
  induction calls with
  | nil => rfl
  | cons x calls ih =>
    rw [Exchange.tended, Bool.and_eq_true]
    refine ⟨?_, ih h.2 fun y hy => htaken y (List.mem_cons_of_mem x hy)⟩
    cases hcreated : x.created? with
    | none => rfl
    | some node =>
      obtain ⟨elements, answer, label, answer', rest, helements, rfl⟩ := h.1 node hcreated
      have hanswer : Except.isOk answer = true :=
        htaken ⟨.setPathData node elements, answer⟩ (by simp)
      simp [tends, helements, hanswer]

end Exchange

/-! ## Runs -/

namespace Tool

/-- An act fills every node that it creates, before it commits the stroke. -/
theorem Act.filled [Scalar R] {b : Bool} {t t' : Tool R} {calls : List (Exchange R)}
    (hact : Act t t' b calls) : Filled calls := by
  have hstop : Filled (stop t.timer : List (Exchange R)) := by
    cases t.timer <;> exact .of_none (by simp [stop, created?])
  cases hact with
  | kept | emptied => trivial
  | refused h => cases h <;> exact .of_none (by simp [created?])
  | begun _ h => cases h <;> exact .of_none (by simp [created?])
  | sampled => exact .of_none (by simp [created?])
  | released => exact hstop.append (.of_none (by simp [created?]))
  | committed _ _ h hdrawn =>
    refine hstop.append ⟨fun node hnode => ?_, h.filled hdrawn _ _ _⟩
    cases hnode
  | cancelled => exact hstop.append (.of_none (by simp [created?]))

variable [DecimalScalar R]

theorem run_filled (h : Host R σ) (settings : Settings R) (inputs : List (Input R σ)) (w : σ) :
    Filled (run h inputs (ofSettings settings, w, [])).2.2 :=
  run_induct (motive := fun _ calls => Filled calls) settings trivial
    (fun hfilled hact => hfilled.append hact.filled) h inputs w

/-- After any inputs, every node that was created was given a path next, which is not empty, and
then the gesture was committed; and no node was ever removed.  If the document took all the paths,
every node got one. -/
theorem run_nodes (h : Host R σ) (settings : Settings R) (inputs : List (Input R σ)) (w : σ) :
    let calls := (run h inputs (ofSettings settings, w, [])).2.2
    Filled calls ∧ Keeps calls ∧ ((∀ x ∈ calls, x.taken = true) → tended calls = true) := by
  intro calls
  have hfilled : Filled calls := run_filled h settings inputs w
  have hfollows := Follows.run (h := h) (x := (ofSettings settings, w, []))
    (follows_ofSettings settings) inputs
  exact ⟨hfilled, hfollows.keeps, hfilled.tended⟩

end Tool

/-! ## A node left behind -/

/-- A host with a window of one unit and with pixels of some size.  It has one layer, which accepts
drawing, and answers every path in the same way. -/
def Host.window (pixelSize : Int) (write : Except DocumentError Unit) : Host Int Unit where
  view _ := ⟨⟨0, 0, 1, 1⟩, pixelSize, .identity, none⟩
  answer
    | .currentLayer, _ => (some ⟨1⟩, ())
    | .layerState _, _ => (.ok ⟨false, false⟩, ())
    | .createPathNode _ _, _ => (.ok ⟨1⟩, ())
    | .setPathData _ _, _ => (write, ())
    | .removeNode _, _ | .commit _, _ => (.ok (), ())
    | .requestRedraw _, _ | .showPreview _ _, _ | .clearPreview, _ | .cancelTimer _, _ => ((), ())
    | .startTimer _, _ => (⟨1⟩, ())

/-- Settings for a pen that follows the pointer. -/
def Settings.light (mode : StrokeMode) : Settings Int :=
  { (withMode mode : Settings Int) with mass := 0, drag := 0 }

/-- A line through three samples. -/
def Input.stroke : List (Input Int Unit) :=
  [.event (.press ⟨0, 0⟩ 0 1), .event (.move ⟨10, 0⟩ 10 ⟨true, false, false⟩),
    .event (.move ⟨20, 10⟩ 20 ⟨true, false, false⟩), .event (.release ⟨20, 10⟩ 30 1)]

/-- A node whose path the document refused is left behind empty. -/
theorem Tool.run_not_tended :
    let outcome := run (.window 1 (.error (.rejected "set_path_data"))) Input.stroke
      (ofSettings (Settings.light .line), (), [])
    outcome.1.phase = .idle ∧ tended outcome.2.2 = false := by
  decide +kernel

end Freehand
