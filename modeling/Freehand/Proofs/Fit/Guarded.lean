import Freehand.Fit.Pieces

/-!
# Fitting by position, with every access guarded

`Fit.curves` takes runs apart as lists.  Here the same fit reads samples and parameters by their
positions, cuts runs at positions and counts down the segments that are left.  It gives no answer
where a position is out of range, where a number would fall below zero, and where the recursion is
deeper than the run is long.

It always gives an answer, and the answer is that of `Fit.curves` (`Fit.Guarded.curves?_eq`): a part
of a split has at least two samples and one segment left, and uses no more segments than it is
allowed (`Fit.length_pieces_le`).
-/

namespace Freehand.Fit

variable {R : Type} [Scalar R]

/-! ## Numbers of parameters and of segments -/

theorem length_chordLengths (length : R) (p : Point R) (data : List (Point R)) :
    (chordLengths length p data).length = data.length := by
  induction data generalizing length p with
  | nil => rfl
  | cons q data ih => rw [chordLengths, List.length_cons, ih, List.length_cons]

theorem length_shares (total : R) (lengths : List R) :
    (shares total lengths).length = lengths.length := by
  fun_induction shares total lengths with
  | case1 => rfl
  | case2 => rfl
  | case3 l rest hrest ih => rw [List.length_cons, ih, List.length_cons]

/-- Every sample has a parameter. -/
theorem length_of_chordParameters? {data : List (Point R)} {u : List R}
    (hu : chordParameters? data = some u) : u.length = data.length := by
  cases data with
  | nil => cases hu
  | cons p data =>
    simp only [chordParameters?] at hu
    split at hu
    · cases hu
    · split at hu
      · cases hu
      · cases hu
        rw [length_shares, List.length_cons, length_chordLengths, List.length_cons]

theorem length_refineInner (s : Cubic R) (data : List (Point R)) (u : List R) :
    (refineInner s data u).length = u.length := by
  fun_induction refineInner s data u with
  | case1 p q data t u ih => rw [List.length_cons, ih, List.length_cons]
  | case2 => rfl

theorem length_refine (s : Cubic R) (data : List (Point R)) (u : List R) :
    (refine s data u).length = u.length := by
  rw [refine.eq_def]
  split
  · rw [List.length_cons, length_refineInner, List.length_cons]
  · rfl

/-- Fewer than two samples need no segments. -/
theorem pieces_of_short {tolerance : R} {ends : Ends R} {maxSegments : Nat}
    {data : List (Point R)} (hshort : data.length < 2) :
    pieces tolerance ends maxSegments data = .ok [] := by
  match data with
  | [] | [_] =>
    rw [pieces]
    rfl

/-- A fit uses no more segments than it is allowed, if it is allowed one. -/
theorem length_pieces_le {tolerance : R} {ends : Ends R} {maxSegments : Nat}
    {data : List (Point R)} {segments : List (Cubic R)}
    (hpieces : pieces tolerance ends maxSegments data = .ok segments) (hmax : 1 ≤ maxSegments) :
    segments.length ≤ maxSegments := by
  fun_induction pieces tolerance ends maxSegments data generalizing segments with
  | case1 ends maxSegments data hshort =>
    cases hpieces
    rw [short.eq_def]
    split
    · exact hmax
    · exact Nat.zero_le _
  | case2 => cases hpieces; exact Nat.zero_le _
  | case3 => cases hpieces; exact hmax
  | case4 => cases hpieces
  | case5 => cases hpieces
  | case6 => cases hpieces
  | case7 ends maxSegments data hshort c hsingle hworst hmax' hw joint front hfront back hback
      ihfront =>
    rename_i ihback
    have hlength := ihfront hfront (by omega)
    have hlength' := ihback hback (by omega)
    cases hpieces
    rw [List.length_append]
    omega

/-- A fit by one segment is a fit that may use one. -/
theorem curves_of_curve {points : List (Point R)} {tolerance : R} {s : Cubic R}
    (hcurve : curve points tolerance = .ok (some s)) : curves points tolerance 1 = .ok [s] := by
  cases hcurves : curves points tolerance 1 with
  | error e =>
    rw [curve, hcurves] at hcurve
    cases hcurve
  | ok segments =>
    rw [curve, hcurves] at hcurve
    obtain ⟨rest, rfl⟩ := List.head?_eq_some_iff.1 (Except.ok.inj hcurve)
    rw [curves, if_neg Nat.one_ne_zero] at hcurves
    have hlength := length_pieces_le hcurves (Nat.le_refl 1)
    rw [List.length_cons] at hlength
    rw [List.eq_nil_of_length_eq_zero (by omega : rest.length = 0)]

namespace Guarded

/-! ## Guards -/

/-- The difference of two numbers, unless it is below zero. -/
def minus? (m n : Nat) : Option Nat :=
  if n ≤ m then some (m - n) else none

/-- The samples up to a position, if there is one at the position. -/
def front? (data : List (Point R)) (i : Nat) : Option (List (Point R)) :=
  if i < data.length then some (data.take (i + 1)) else none

/-- The samples from a position on, if the run reaches up to there. -/
def back? (data : List (Point R)) (i : Nat) : Option (List (Point R)) :=
  if i ≤ data.length then some (data.drop i) else none

/-! ## Chord lengths -/

/-- The lengths along a run behind those found before, which are read at their last position. -/
def chordLengths? (lengths : List R) : List (Point R) → Option (List R)
  | p :: q :: data => do
    let length ← lengths[← minus? lengths.length 1]?
    chordLengths? (lengths ++ [length + p.distance q]) (q :: data)
  | _ => some lengths

/-- The first guess of the parameters of a run, unless its chords add up to nothing. -/
def chordParameters? (data : List (Point R)) : Option (Option (List R)) := do
  let lengths ← chordLengths? [0] data
  let total ← lengths[← minus? lengths.length 1]?
  if total ≤ 0 ∨ !Scalar.isFinite total then
    return none
  else
    return some (shares total lengths)

/-! ## Tangents -/

/-- The direction that leaves the first sample. -/
def leftTangent? (data : List (Point R)) : Option (Option (Point R)) := do
  let d0 ← data[0]?
  let d1 ← data[1]?
  match data[2]? with
  | some d2 => return endTangent? d0 d1 d2
  | none => return (d1 - d0).unit?

/-- The direction that leaves the last sample backwards. -/
def rightTangent? (data : List (Point R)) : Option (Option (Point R)) := do
  let d0 ← data[← minus? data.length 1]?
  let d1 ← data[← minus? data.length 2]?
  if 3 ≤ data.length then
    let d2 ← data[← minus? data.length 3]?
    return endTangent? d0 d1 d2
  else
    return (d1 - d0).unit?

/-- The direction at a position, pointing backwards. -/
def centerTangent? (data : List (Point R)) (i : Nat) : Option (Option (Point R)) := do
  let before ← data[← minus? i 1]?
  let after ← data[i + 1]?
  return (before - after).unit?

/-- A direction that is kept, or an estimate of it. -/
def estimated? (kept : Option (Point R)) (estimate : Option (Option (Point R))) :
    Option (Option (Point R)) :=
  if kept.isSome then some kept else estimate

/-- The ends of a run and the directions that leave them. -/
def frame? (ends : Ends R) (data : List (Point R)) : Option (Frame R) := do
  let first ← data[0]?
  let last ← data[← minus? data.length 1]?
  let start ← estimated? ends.start (leftTangent? data)
  let stop ← estimated? ends.stop (rightTangent? data)
  return ⟨first, last, start.getD 0, stop.getD 0⟩

/-! ## One segment -/

/-- The parameters with Newton steps made at `n` positions from `i` on. -/
def refineAt? (s : Cubic R) (data : List (Point R)) : Nat → Nat → List R → Option (List R)
  | 0, _, u => some u
  | n + 1, i, u => do
    let t ← u[i]?
    let p ← data[i]?
    refineAt? s data n (i + 1) (u.set i (newtonStep s p t))

/-- The largest squared distance at `n` positions from `i` on and its position, if it is larger than
what was found before. -/
def worstAt? (s : Cubic R) (data : List (Point R)) (u : List R) :
    Nat → Nat → R × Nat → Option (R × Nat)
  | 0, _, w => some w
  | n + 1, i, w => do
    let t ← u[i]?
    let p ← data[i]?
    let error := (s.eval t - p).normSq
    worstAt? s data u n (i + 1) (if w.1 < error then (error, i) else w)

/-- A segment fitted at given parameters, the parameters moved at all positions but the first and
the last, and the largest squared distance there. -/
def attempt? (f : Frame R) (data : List (Point R)) (u : List R) :
    Option (Candidate R × (R × Nat)) := do
  let s := f.fit data u
  let last ← minus? data.length 1
  let u ← refineAt? s data (last - 1) 1 u
  let w ← worstAt? s data u (last - 1) 1 (0, data.length / 2)
  return (⟨s, u⟩, w)

/-- Fit again up to `n` times until the error is within the tolerance. -/
def improve? (f : Frame R) (data : List (Point R)) (tolerance : R) :
    Nat → Candidate R × (R × Nat) → Option (Candidate R × (R × Nat))
  | 0, c => some c
  | n + 1, c => do
    let next ← attempt? f data c.1.parameters
    if next.2.1 ≤ tolerance then return next else improve? f data tolerance n next

/-- The best segment for a run with given first parameters, and its largest squared distance. -/
def candidate? (f : Frame R) (data : List (Point R)) (tolerance : R) (u : List R) :
    Option (Candidate R × (R × Nat)) := do
  let c ← attempt? f data u
  if c.2.1 ≤ tolerance then
    return c
  else if c.2.1 ≤ tolerance * refineRatio * refineRatio then
    improve? f data tolerance refinements c
  else
    return c

/-! ## Many segments -/

/-- The segments for both parts of a run that is split at a position, where `fit` gives those for a
part. -/
def split? (fit : Ends R → Nat → List (Point R) → Option (Except FitError (List (Cubic R))))
    (ends : Ends R) (maxSegments : Nat) (data : List (Point R)) (i : Nat) :
    Option (Except FitError (List (Cubic R))) := do
  let joint ← centerTangent? data i
  match ← fit ⟨ends.start, joint⟩ (← minus? maxSegments 1) (← front? data i) with
  | .error e => return .error e
  | .ok front =>
    match ← fit ⟨joint.map (- ·), ends.stop⟩ (← minus? maxSegments front.length)
        (← back? data i) with
    | .error e => return .error e
    | .ok back => return .ok (front ++ back)

/-- The segments for a run, by a recursion at most `depth` deep. -/
def pieces? (tolerance : R) : Nat → Ends R → Nat → List (Point R) →
    Option (Except FitError (List (Cubic R)))
  | 0, _, _, _ => none
  | depth + 1, ends, maxSegments, data => do
    let first ← data[0]?
    let last ← data[← minus? data.length 1]?
    if data.length = 2 then
      return .ok [straight first last ends]
    else
      match ← chordParameters? data with
      | none => return .ok []
      | some u =>
        let (c, error, i) ← candidate? (← frame? ends data) data tolerance u
        if error ≤ tolerance then
          return .ok [c.segment]
        else if maxSegments ≤ 1 then
          return .error (.unfittable maxSegments)
        else
          split? (pieces? tolerance depth) ends maxSegments data i

/-- The segments for a run of samples, by a recursion no deeper than the run is long. -/
def curves? (points : List (Point R)) (tolerance : R) (maxSegments : Nat) :
    Option (Except FitError (List (Cubic R))) :=
  let data := clean points
  if data.length < 2 ∨ maxSegments = 0 then
    some (.ok [])
  else
    pieces? tolerance data.length ⟨none, none⟩ maxSegments data

/-! ## All guards hold -/

theorem minus?_eq {m n : Nat} (h : n ≤ m) : minus? m n = some (m - n) :=
  if_pos h

omit [Scalar R] in
theorem front?_eq {data : List (Point R)} {i : Nat} (hi : i < data.length) :
    front? data i = some (data.take (i + 1)) :=
  if_pos hi

omit [Scalar R] in
theorem back?_eq {data : List (Point R)} {i : Nat} (hi : i ≤ data.length) :
    back? data i = some (data.drop i) :=
  if_pos hi

omit [Scalar R] in
/-- The last of some values is read at their last position. -/
theorem getElem?_last (values : List R) (value : R) :
    (minus? (values ++ [value]).length 1).bind ((values ++ [value])[·]?) = some value := by
  rw [minus?_eq (by simp), Option.bind_some]
  simp

theorem chordLengths?_eq (lengths : List R) (length : R) (p : Point R) (data : List (Point R)) :
    chordLengths? (lengths ++ [length]) (p :: data) =
      some (lengths ++ length :: chordLengths length p data) := by
  induction data generalizing lengths length p with
  | nil => rfl
  | cons q data ih =>
    rw [chordLengths?, chordLengths]
    show (minus? _ 1).bind (fun i => (_[i]?).bind _) = _
    rw [← Option.bind_assoc, getElem?_last, Option.bind_some, ih, List.append_assoc]
    rfl

/-- Two samples have a length, so no access fails where the chords are added up. -/
theorem chordParameters?_eq {data : List (Point R)} (hdata : 2 ≤ data.length) :
    chordParameters? data = some (Fit.chordParameters? data) := by
  match data with
  | [] | [_] => exact absurd hdata (by simp)
  | p :: q :: data =>
    obtain ⟨lengths, total, hlengths⟩ : ∃ lengths total,
        chordLengths 0 p (q :: data) = lengths ++ [total] :=
      ⟨_, _, (List.dropLast_concat_getLast (List.cons_ne_nil _ _)).symm⟩
    have hguarded := chordLengths?_eq [] 0 p (q :: data)
    rw [hlengths, List.nil_append, List.nil_append, ← List.cons_append] at hguarded
    rw [chordParameters?, hguarded, Fit.chordParameters?, hlengths, List.getLast?_concat]
    show (minus? (0 :: lengths ++ [total]).length 1).bind
      (fun i => ((0 :: lengths ++ [total])[i]?).bind _) = _
    rw [← Option.bind_assoc, getElem?_last, Option.bind_some]
    exact (apply_ite some _ _ _).symm

theorem leftTangent?_eq {data : List (Point R)} (hdata : 2 ≤ data.length) :
    leftTangent? data = some (Fit.leftTangent? data) := by
  match data with
  | [] | [_] => exact absurd hdata (by simp)
  | [_, _] => rfl
  | _ :: _ :: _ :: _ => rfl

/-- From the end of a run, its samples are read as those of the reversed run. -/
theorem rightTangent?_eq {data : List (Point R)} (hdata : 2 ≤ data.length) :
    rightTangent? data = some (Fit.rightTangent? data) := by
  have hback (i : Nat) (hi : i < data.length) :
      data[data.length - (i + 1)]? = data.reverse[i]? := by
    rw [List.getElem?_reverse hi]
    congr 1
    omega
  rw [Fit.rightTangent?, ← leftTangent?_eq (by rwa [List.length_reverse]), leftTangent?,
    ← hback 0 (by omega), ← hback 1 (by omega), rightTangent?, minus?_eq (by omega),
    minus?_eq hdata]
  by_cases hlong : 3 ≤ data.length
  · have hlt : data.length - 3 < data.length := by omega
    rw [← hback 2 (by omega), minus?_eq hlong]
    simp [hlong, List.getElem?_eq_getElem hlt]
  · rw [List.getElem?_eq_none (show data.reverse.length ≤ 2 by rw [List.length_reverse]; omega)]
    simp [hlong]

theorem centerTangent?_eq {data : List (Point R)} {i : Nat} (hi : 0 < i)
    (hlast : i + 1 < data.length) : centerTangent? data i = some (Fit.centerTangent? data i) := by
  have hbefore : i - 1 < data.length := by omega
  rw [centerTangent?, Fit.centerTangent?, minus?_eq hi, List.getElem?_eq_getElem hbefore,
    List.getElem?_eq_getElem hlast]
  simp [List.getElem?_eq_getElem hbefore]

theorem frame?_eq (ends : Ends R) {data : List (Point R)} (hdata : 2 ≤ data.length) :
    frame? ends data = some (frame ends data) := by
  have hestimated (kept estimate : Option (Point R)) :
      estimated? kept (some estimate) = some (kept.or estimate) := by
    cases kept <;> rfl
  have hfirst : 0 < data.length := by omega
  have hlast : data.length - 1 < data.length := by omega
  rw [frame?, minus?_eq hfirst, leftTangent?_eq hdata, rightTangent?_eq hdata, hestimated,
    hestimated, List.getElem?_eq_getElem hfirst]
  simp [List.getElem?_eq_getElem hfirst, List.getElem?_eq_getElem hlast, frame,
    List.head?_eq_getElem?, List.getLast?_eq_getElem?]

section

variable (s : Cubic R) {data : List (Point R)}

/-- Steps by position refine the parameters from there on. -/
theorem refineAt?_eq (n i : Nat) {u : List R} (hu : u.length = data.length)
    (hi : i + n + 1 = data.length) :
    refineAt? s data n i u = some (u.take i ++ refineInner s (data.drop i) (u.drop i)) := by
  induction n generalizing i u with
  | zero =>
    have hone : (data.drop i).length = 1 := by rw [List.length_drop]; omega
    obtain ⟨p, hp⟩ := List.length_eq_one_iff.1 hone
    rw [refineAt?, hp, refineInner, List.take_append_drop]
    simp
  | succ n ih =>
    have hlt : i < data.length := by omega
    have hlt' : i < u.length := by omega
    have hlt'' : i + 1 < data.length := by omega
    have hset : (u.set i (newtonStep s data[i] u[i])).length = data.length := by
      rw [List.length_set, hu]
    rw [refineAt?, List.getElem?_eq_getElem hlt', List.getElem?_eq_getElem hlt]
    show refineAt? s data n (i + 1) (u.set i (newtonStep s data[i] u[i])) = _
    rw [ih (i + 1) hset (by omega), List.drop_eq_getElem_cons hlt, List.drop_eq_getElem_cons hlt',
      List.drop_eq_getElem_cons hlt'', refineInner, List.take_succ_eq_append_getElem (by simpa),
      List.getElem_set_self, List.take_set_of_le (Nat.le_refl i),
      List.drop_set_of_lt (Nat.lt_succ_self i), List.append_assoc]
    rfl

/-- The search for the worst sample looks at the inner ones, for which there are parameters. -/
theorem worstAt?_eq (n i : Nat) {u : List R} (hu : u.length = data.length)
    (hi : i + n + 1 = data.length) (w : R × Nat) :
    worstAt? s data u n i w = some (worstInner s i w (data.drop i) (u.drop i)) := by
  induction n generalizing i w with
  | zero =>
    have hone : (data.drop i).length = 1 := by rw [List.length_drop]; omega
    obtain ⟨p, hp⟩ := List.length_eq_one_iff.1 hone
    rw [worstAt?, hp, worstInner]
    simp
  | succ n ih =>
    have hlt : i < data.length := by omega
    have hlt' : i < u.length := by omega
    have hlt'' : i + 1 < data.length := by omega
    rw [worstAt?, List.getElem?_eq_getElem hlt', List.getElem?_eq_getElem hlt]
    show worstAt? s data u n (i + 1) _ = _
    rw [ih (i + 1) (by omega), List.drop_eq_getElem_cons hlt, List.drop_eq_getElem_cons hlt',
      List.drop_eq_getElem_cons hlt'', worstInner]

end

section

variable (f : Frame R) {data : List (Point R)}

/-- A candidate with its largest squared distance. -/
def measured (data : List (Point R)) (c : Candidate R) : Candidate R × (R × Nat) :=
  (c, c.worst data)

/-- An attempt reads what it was given, one parameter for each sample. -/
theorem attempt?_eq (hdata : 2 ≤ data.length) {u : List R} (hu : u.length = data.length) :
    attempt? f data u = some (measured data (.ofParameters f data u)) := by
  have hlast : 1 + (data.length - 1 - 1) + 1 = data.length := by omega
  have hrefine : u.take 1 ++ refineInner (f.fit data u) (data.drop 1) (u.drop 1) =
      refine (f.fit data u) data u := by
    match data, u with
    | p :: data, t :: u => rfl
    | [], _ => exact absurd hdata (by simp)
    | p :: data, [] => cases hu
  rw [attempt?, minus?_eq (by omega)]
  show (refineAt? (f.fit data u) data (data.length - 1 - 1) 1 u).bind _ = _
  rw [refineAt?_eq _ _ _ hu hlast, hrefine, Option.bind_some,
    worstAt?_eq _ _ _ ((length_refine _ _ _).trans hu) hlast, List.drop_one, List.drop_one]
  rfl

/-- Improving keeps the number of parameters, so every round can read them. -/
theorem improve?_eq (hdata : 2 ≤ data.length) (tolerance : R) (n : Nat) {c : Candidate R}
    (hc : c.parameters.length = data.length) :
    improve? f data tolerance n (measured data c) =
      some (measured data (c.improve f data tolerance n)) := by
  induction n generalizing c with
  | zero => rfl
  | succ n ih =>
    rw [improve?, Candidate.improve]
    show (attempt? f data c.parameters).bind _ = _
    rw [attempt?_eq f hdata hc, Option.bind_some]
    show (if ((Candidate.ofParameters f data c.parameters).worst data).1 ≤ tolerance then _ else _)
      = _
    split
    · rfl
    · exact ih ((length_refine _ _ _).trans hc)

theorem candidate?_eq (hdata : 2 ≤ data.length) (tolerance : R) {u : List R}
    (hu : u.length = data.length) :
    candidate? f data tolerance u = some (measured data (candidate f data tolerance u)) := by
  rw [candidate?, attempt?_eq f hdata hu, candidate]
  show (if ((Candidate.ofParameters f data u).worst data).1 ≤ tolerance then _ else _) = _
  split
  · rfl
  · show (if ((Candidate.ofParameters f data u).worst data).1 ≤ _ then _ else _) = _
    split
    · exact improve?_eq f hdata tolerance refinements ((length_refine _ _ _).trans hu)
    · rfl

end

/-- A run is split within its bounds, and its second part is left some of the segments. -/
theorem split?_eq {tolerance : R} {data : List (Point R)}
    {fit : Ends R → Nat → List (Point R) → Option (Except FitError (List (Cubic R)))}
    (hfit : ∀ (ends : Ends R) (maxSegments : Nat) (part : List (Point R)),
      part.length < data.length → 2 ≤ part.length → 1 ≤ maxSegments →
      fit ends maxSegments part = some (pieces tolerance ends maxSegments part))
    (ends : Ends R) {maxSegments i : Nat} (hmax : 2 ≤ maxSegments) (hi : 0 < i)
    (hlast : i + 1 < data.length) :
    split? fit ends maxSegments data i =
      let joint := Fit.centerTangent? data i
      some <|
        match pieces tolerance ⟨ends.start, joint⟩ (maxSegments - 1) (data.take (i + 1)) with
        | .error e => .error e
        | .ok front =>
          match pieces tolerance ⟨joint.map (- ·), ends.stop⟩ (maxSegments - front.length)
              (data.drop i) with
          | .error e => .error e
          | .ok back => .ok (front ++ back) := by
  have hfront : (data.take (i + 1)).length = i + 1 := by rw [List.length_take]; omega
  have hback : (data.drop i).length = data.length - i := List.length_drop
  rw [split?, centerTangent?_eq hi hlast, minus?_eq (by omega), front?_eq (by omega),
    back?_eq (by omega)]
  simp only [Option.bind_eq_bind, Option.bind_some]
  rw [hfit _ _ _ (by omega) (by omega) (by omega), Option.bind_some]
  cases hpieces : pieces tolerance ⟨ends.start, Fit.centerTangent? data i⟩ (maxSegments - 1)
      (data.take (i + 1)) with
  | error e => rfl
  | ok front =>
    have hlength := length_pieces_le hpieces (by omega)
    simp only
    rw [minus?_eq (by omega), Option.bind_some, hfit _ _ _ (by omega) (by omega) (by omega),
      Option.bind_some]
    cases pieces tolerance ⟨(Fit.centerTangent? data i).map (- ·), ends.stop⟩
      (maxSegments - front.length) (data.drop i) <;> rfl

/-- The recursion answers if it may be as deep as the run is long. -/
theorem pieces?_eq (tolerance : R) (depth : Nat) (ends : Ends R) {maxSegments : Nat}
    {data : List (Point R)} (hdepth : data.length ≤ depth) (hdata : 2 ≤ data.length)
    (hmax : 1 ≤ maxSegments) :
    pieces? tolerance depth ends maxSegments data =
      some (pieces tolerance ends maxSegments data) := by
  induction depth generalizing ends maxSegments data with
  | zero => omega
  | succ depth ih =>
    have hfirst : 0 < data.length := by omega
    have hlast : data.length - 1 < data.length := by omega
    rw [pieces?, minus?_eq hfirst, List.getElem?_eq_getElem hfirst]
    simp only [Option.bind_eq_bind, Option.bind_some, Option.pure_def,
      List.getElem?_eq_getElem hlast]
    by_cases htwo : data.length = 2
    · match data with
      | [p, q] =>
        rw [pieces]
        rfl
    · have hshort : ¬data.length < 3 := by omega
      rw [if_neg htwo, pieces, dif_neg hshort]
      cases hu : Fit.chordParameters? data with
      | none =>
        rw [single?, chordParameters?_eq hdata, hu]
        rfl
      | some u =>
        simp only [single?, chordParameters?_eq hdata, hu, Option.map_some, frame?_eq ends hdata,
          Option.bind_some, measured,
          candidate?_eq (frame ends data) hdata tolerance (length_of_chordParameters? hu)]
        generalize candidate (frame ends data) data tolerance u = c
        by_cases hworst : (c.worst data).1 ≤ tolerance
        · rw [if_pos hworst, if_pos hworst]
        · rw [if_neg hworst, if_neg hworst]
          by_cases hbudget : maxSegments ≤ 1
          · rw [if_pos hbudget, if_pos hbudget]
          · rw [if_neg hbudget, if_neg hbudget]
            have hw : 0 < (c.worst data).2 ∧ (c.worst data).2 + 1 < data.length :=
              worst_snd_inner c.segment data c.parameters (by omega)
            exact split?_eq (fun ends maxSegments part hpart hpart' hmax =>
              ih ends (by omega) hpart' hmax) ends (by omega) hw.1 hw.2

/-- The fit always gives an answer: no position is out of range, no number falls below zero, and the
recursion is no deeper than the run is long. -/
theorem curves?_eq (points : List (Point R)) (tolerance : R) (maxSegments : Nat) :
    curves? points tolerance maxSegments = some (curves points tolerance maxSegments) := by
  rw [curves?, curves]
  by_cases hmax : maxSegments = 0
  · rw [if_pos (.inr hmax), if_pos hmax]
  · rw [if_neg hmax]
    by_cases hdata : (clean points).length < 2
    · rw [if_pos (.inl hdata), pieces_of_short hdata]
    · rw [if_neg (not_or.2 ⟨hdata, hmax⟩)]
      exact pieces?_eq tolerance _ _ (Nat.le_refl _) (by omega) (by omega)

end Guarded

end Freehand.Fit
