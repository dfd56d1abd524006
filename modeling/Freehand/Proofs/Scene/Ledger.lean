import Mathlib.Data.List.Induction
import Freehand.Proofs.Scene.Arena

/-!
# Arenas as ledgers of what was asked

The *ledger* of a run of requests is the list of these requests with their answers, the oldest
first.  It determines what is stored: the finite map `Arena.stored` only reads the ledger and knows
nothing of slots, generations or the free list.

An arena *keeps* a ledger when its lookup is that map.  What makes identifiers fresh is a fact
about slots: the generation of a slot is the number of lines that emptied it, and an identifier that
was issued and finds nothing names an earlier generation.  A generation is a word of 32 bits, so
this holds as long as no slot was emptied 2³² times.
-/

namespace Freehand

namespace Arena

variable {α : Type} {a : Arena α}

/-! ## Requests and their ledger -/

/-- What is stored under an identifier after a line. -/
def Line.effect (id : NodeId) (v : Option α) : Line α → Option α
  | .inserted w j => if id = j then some w else v
  | .removed j _ => if id = j then none else v
  | .wrote j f _ => if id = j then v.map f else v

/-- The identifier that a line issued. -/
def Line.issued? : Line α → Option NodeId
  | .inserted _ id => some id
  | .removed .. => none
  | .wrote .. => none

/-- The identifier whose value a line took out. -/
def Line.taken? : Line α → Option NodeId
  | .inserted .. => none
  | .removed id answer => answer.map fun _ => id
  | .wrote .. => none

/-- What is stored under an identifier at the end of a ledger. -/
def stored (ledger : List (Line α)) (id : NodeId) : Option α :=
  ledger.foldl (Line.effect id) none

/-- The identifiers that were issued. -/
def issued (ledger : List (Line α)) : List NodeId :=
  ledger.filterMap Line.issued?

/-- The identifiers whose values were taken out. -/
def taken (ledger : List (Line α)) : List NodeId :=
  ledger.filterMap Line.taken?

/-- How often the slot at a position was emptied. -/
def removals (ledger : List (Line α)) (i : UInt32) : Nat :=
  (taken ledger).countP fun id => id.index = i

/-- The identifier was issued and not asked back since. -/
def Outstanding (ledger : List (Line α)) (id : NodeId) : Prop :=
  ∃ before v after, ledger = before ++ .inserted v id :: after ∧
    ∀ answer, Line.removed id answer ∉ after

theorem stored_concat (ledger : List (Line α)) (l : Line α) (id : NodeId) :
    stored (ledger ++ [l]) id = l.effect id (stored ledger id) := by
  simp [stored]

theorem issued_concat (ledger : List (Line α)) (l : Line α) :
    issued (ledger ++ [l]) = issued ledger ++ l.issued?.toList := by
  cases h : l.issued? <;> simp [issued, h]

theorem taken_concat (ledger : List (Line α)) (l : Line α) :
    taken (ledger ++ [l]) = taken ledger ++ l.taken?.toList := by
  cases h : l.taken? <;> simp [taken, h]

theorem removals_le_append (ledger more : List (Line α)) (i : UInt32) :
    removals ledger i ≤ removals (ledger ++ more) i := by
  simp [removals, taken]

theorem removals_le_length (ledger : List (Line α)) (i : UInt32) :
    removals ledger i ≤ ledger.length :=
  Nat.le_trans List.countP_le_length (List.length_filterMap_le ..)

/-- An identifier is outstanding after a line if that issued it, or if it was and is not asked back.
-/
theorem outstanding_concat (ledger : List (Line α)) (l : Line α) (id : NodeId) :
    Outstanding (ledger ++ [l]) id ↔
      (∃ v, l = .inserted v id) ∨ (Outstanding ledger id ∧ ∀ answer, l ≠ .removed id answer) := by
  constructor
  · rintro ⟨before, v, after, h, hafter⟩
    rcases List.eq_nil_or_concat after with rfl | ⟨after, m, rfl⟩
    · obtain ⟨-, h⟩ := List.append_inj' h rfl
      exact .inl ⟨v, by simpa using h⟩
    · rw [List.concat_eq_append, ← List.cons_append, ← List.append_assoc] at h
      obtain ⟨rfl, h⟩ := List.append_inj' h rfl
      obtain rfl : l = m := by simpa using h
      simp only [List.concat_eq_append, List.mem_append, List.mem_singleton, not_or] at hafter
      exact .inr ⟨⟨before, v, after, rfl, fun answer => (hafter answer).1⟩,
        fun answer h => (hafter answer).2 h.symm⟩
  · rintro (⟨v, rfl⟩ | ⟨⟨before, v, after, rfl, hafter⟩, hl⟩)
    · exact ⟨ledger, v, [], rfl, by simp⟩
    · refine ⟨before, v, after ++ [l], by simp, fun answer => ?_⟩
      simp [hafter answer, (hl answer).symm]

/-- There is something stored under the identifiers that are outstanding, and under no others. -/
theorem isSome_stored_iff (ledger : List (Line α)) (id : NodeId) :
    (stored ledger id).isSome = true ↔ Outstanding ledger id := by
  induction ledger using List.reverseRecOn with
  | nil => simp [stored, Outstanding]
  | append_singleton ledger l ih =>
    rw [stored_concat, outstanding_concat, ← ih]
    cases l with
    | inserted v j =>
      by_cases h : id = j
      · simp [Line.effect, h]
      · simp [Line.effect, h, Ne.symm h]
    | removed j answer =>
      by_cases h : id = j
      · simp [Line.effect, h]
      · simp [Line.effect, h, Ne.symm h]
    | wrote j f found => by_cases h : id = j <;> simp [Line.effect, h]

/-! ## The generation of a slot -/

/-- The generation of the slot at a position; a slot that is yet to come has generation 0. -/
def generation (a : Arena α) (i : UInt32) : UInt32 :=
  (a.slots[i.toNat]?.map Slot.generation).getD 0

theorem generation_of_get? {id : NodeId} {v : α} (h : a.get? id = some v) :
    a.generation id.index = id.generation := by
  rw [generation, get?_eq_some_iff.1 h]
  rfl

theorem generation_modify (id : NodeId) (f : α → α) (i : UInt32) :
    (a.modify id f).generation i = a.generation i := by
  rw [modify]
  split
  · rw [generation, generation, Array.getElem?_modify]
    split
    · rw [Option.map_map]
      rfl
    · rfl
  · rfl

theorem generation_remove {id : NodeId} {v : α} (h : a.get? id = some v) (i : UInt32) :
    (a.remove id).generation i = if id.index = i then a.generation i + 1 else a.generation i := by
  rw [remove, if_pos (contains_iff.2 ⟨v, h⟩), generation, generation, Array.getElem?_modify]
  by_cases hi : id.index = i
  · subst hi
    rw [if_pos rfl, if_pos rfl, get?_eq_some_iff.1 h]
    rfl
  · rw [if_neg (mt UInt32.toNat_inj.1 hi), if_neg hi]

theorem generation_insert (h : a.Valid) (v : α) (fits : (a.insert v).2.Fits) (i : UInt32) :
    (a.insert v).2.generation i = a.generation i := by
  rcases insert_cases h v fits with ⟨k, g, free, -, hg, he⟩ | ⟨-, k, hk, he⟩
  · rw [he, generation, generation, Array.getElem?_modify]
    split
    · rw [Option.map_map]
      rfl
    · rfl
  · rw [he, generation, generation, Array.getElem?_push]
    split
    next hi => rw [hi, Array.getElem?_eq_none (Nat.le_refl _)]; rfl
    next => rfl

theorem generation_insert_fst (h : a.Valid) (v : α) (fits : (a.insert v).2.Fits) :
    a.generation (a.insert v).1.index = (a.insert v).1.generation := by
  rw [← generation_insert h v fits]
  exact generation_of_get? (v := v) (by rw [get?_insert h v fits, if_pos rfl])

/-! ## Keeping a ledger -/

/-- The arena is in the state that a ledger leaves. -/
structure Keeps (ledger : List (Line α)) (a : Arena α) : Prop where
  valid : a.Valid
  get?_eq : ∀ id, a.get? id = stored ledger id
  nodup : (issued ledger).Nodup
  generation_eq : ∀ i, (a.generation i).toNat = removals ledger i
  /-- An identifier that was issued and finds nothing is of an earlier generation. -/
  retired : ∀ id ∈ issued ledger, a.get? id = none → id.generation < a.generation id.index
  /-- What was issued is stored or was taken out. -/
  balance : ∀ id, (taken ledger).count id + (stored ledger id).isSome.toNat =
    (issued ledger).count id

namespace Keeps

variable {ledger : List (Line α)}

theorem empty : Keeps [] (Arena.empty : Arena α) where
  valid := valid_empty
  get?_eq _ := rfl
  nodup := List.nodup_nil
  generation_eq _ := rfl
  retired _ h := absurd h (List.not_mem_nil)
  balance _ := rfl

/-- The identifier that is issued next was never issued. -/
theorem fresh (h : Keeps ledger a) (v : α) (fits : (a.insert v).2.Fits) :
    (a.insert v).1 ∉ issued ledger := by
  intro hmem
  have hlt := h.retired _ hmem (get?_insert_fst h.valid v fits)
  rw [generation_insert_fst h.valid v fits] at hlt
  exact absurd hlt (UInt32.lt_irrefl _)

/-- A slot that is used again has a generation that none of its earlier identifiers has. -/
theorem insert (h : Keeps ledger a) (v : α) (fits : (a.insert v).2.Fits) :
    Keeps (ledger ++ [.inserted v (a.insert v).1]) (a.insert v).2 where
  valid := h.valid.insert v fits
  get?_eq id := by
    rw [get?_insert h.valid v fits, stored_concat, ← h.get?_eq]
    rfl
  nodup := by
    rw [issued_concat]
    exact List.nodup_append.2 ⟨h.nodup, by simp [Line.issued?], by
      intro id hid j hj
      obtain rfl : j = (a.insert v).1 := by simpa [Line.issued?] using hj
      exact ne_of_mem_of_not_mem hid (h.fresh v fits)⟩
  generation_eq i := by
    rw [generation_insert h.valid v fits, h.generation_eq, removals, removals, taken_concat]
    simp [Line.taken?]
  retired id hid hnone := by
    rw [get?_insert h.valid v fits] at hnone
    split at hnone
    next => simp at hnone
    next hne =>
      rw [generation_insert h.valid v fits]
      have hid : id ∈ issued ledger := by
        simpa [issued_concat, Line.issued?, hne] using hid
      exact h.retired id hid hnone
  balance id := by
    rw [taken_concat, stored_concat, issued_concat, List.count_append, List.count_append,
      ← h.balance]
    by_cases hid : id = (a.insert v).1
    · have hnone : stored ledger id = none := by
        rw [← h.get?_eq, hid, get?_insert_fst h.valid v fits]
      simp [Line.taken?, Line.effect, Line.issued?, ← hid, hnone]
    · simp [Line.taken?, Line.effect, Line.issued?, hid, Ne.symm hid]

theorem taken_take {id : NodeId} {v : α} (hv : a.get? id = some v) (ledger : List (Line α)) :
    taken (ledger ++ [.removed id (a.take id).1]) = taken ledger ++ [id] := by
  simp [taken_concat, Line.taken?, Arena.take, hv]

/-- The generation of a slot counts what was taken from it, as long as it does not wrap. -/
theorem toNat_generation_take (h : Keeps ledger a) {id : NodeId} {v : α} (hv : a.get? id = some v)
    (few : removals (ledger ++ [.removed id (a.take id).1]) id.index < UInt32.size) (i : UInt32) :
    ((a.take id).2.generation i).toNat =
      (a.generation i).toNat + if id.index = i then 1 else 0 := by
  rw [Arena.take, generation_remove hv]
  split
  next hi =>
    have hlt : (a.generation i).toNat + 1 < UInt32.size := by
      rw [h.generation_eq]
      simpa [removals, taken_take hv, hi] using few
    rw [UInt32.toNat_add]
    exact Nat.mod_eq_of_lt hlt
  next => rfl

/-- Taking out a value moves its slot to a generation that no identifier was issued with. -/
theorem take (h : Keeps ledger a) (id : NodeId)
    (few : removals (ledger ++ [.removed id (a.take id).1]) id.index < UInt32.size) :
    Keeps (ledger ++ [.removed id (a.take id).1]) (a.take id).2 := by
  have hissued : issued (ledger ++ [.removed id (a.take id).1]) = issued ledger := by
    simp [issued_concat, Line.issued?]
  have hget (j : NodeId) : (a.take id).2.get? j =
      stored (ledger ++ [.removed id (a.take id).1]) j := by
    rw [Arena.take, get?_remove, stored_concat, ← h.get?_eq]
    rfl
  cases hv : a.get? id with
  | none =>
    have hself : (a.take id).2 = a := by simp [Arena.take, remove, contains, hv]
    have htaken : taken (ledger ++ [.removed id (a.take id).1]) = taken ledger := by
      simp [taken_concat, Line.taken?, Arena.take, hv]
    refine ⟨h.valid.remove id, hget, hissued ▸ h.nodup, fun i => ?_, fun j hj hnone => ?_,
      fun j => ?_⟩
    · rw [hself, h.generation_eq, removals, removals, htaken]
    · rw [hself] at hnone ⊢
      exact h.retired j (hissued ▸ hj) hnone
    · rw [htaken, hissued, ← hget, hself, h.get?_eq, h.balance]
  | some v =>
    have htaken := taken_take hv ledger
    have hgeneration := h.toNat_generation_take hv few
    refine ⟨h.valid.remove id, hget, hissued ▸ h.nodup, fun i => ?_, fun j hj hnone => ?_,
      fun j => ?_⟩
    · rw [hgeneration, h.generation_eq, removals, removals, htaken]
      simp [List.countP_append, List.countP_cons]
    · rw [UInt32.lt_iff_toNat_lt, hgeneration]
      by_cases hid : j = id
      · rw [hid, generation_of_get? hv, if_pos rfl]
        exact Nat.lt_succ_self _
      · have hlt : j.generation < a.generation j.index := by
          refine h.retired j (hissued ▸ hj) ?_
          rwa [Arena.take, get?_remove, if_neg hid] at hnone
        exact Nat.lt_add_right _ (UInt32.lt_iff_toNat_lt.1 hlt)
    · rw [htaken, hissued, ← hget, List.count_append, ← h.balance, ← h.get?_eq, Arena.take,
        get?_remove]
      by_cases hj : j = id
      · simp [hj, hv]
      · simp [hj, Ne.symm hj]

/-- A replacement issues nothing and takes nothing out. -/
theorem write (h : Keeps ledger a) (id : NodeId) (f : α → α) :
    Keeps (ledger ++ [.wrote id f (a.contains id)]) (a.modify id f) := by
  have hissued : issued (ledger ++ [.wrote id f (a.contains id)]) = issued ledger := by
    simp [issued_concat, Line.issued?]
  have htaken : taken (ledger ++ [.wrote id f (a.contains id)]) = taken ledger := by
    simp [taken_concat, Line.taken?]
  have hget (j : NodeId) : (a.modify id f).get? j =
      stored (ledger ++ [.wrote id f (a.contains id)]) j := by
    rw [get?_modify, stored_concat, ← h.get?_eq]
    rfl
  have hsome (j : NodeId) : ((a.modify id f).get? j).isSome = (a.get? j).isSome := by
    rw [get?_modify]
    split <;> simp
  refine ⟨h.valid.modify id f, hget, hissued ▸ h.nodup, fun i => ?_, fun j hj hnone => ?_,
    fun j => ?_⟩
  · rw [generation_modify, h.generation_eq, removals, removals, htaken]
  · rw [generation_modify]
    refine h.retired j (hissued ▸ hj) ?_
    rw [← Option.not_isSome_iff_eq_none, ← hsome, hnone]
    simp
  · rw [htaken, hissued, ← hget, hsome, h.get?_eq, h.balance]

theorem perform (h : Keeps ledger a) (r : Request α) (fits : (a.perform r).2.Fits)
    (few : ∀ i, removals (ledger ++ [(a.perform r).1]) i < UInt32.size) :
    Keeps (ledger ++ [(a.perform r).1]) (a.perform r).2 := by
  cases r with
  | insert v => exact h.insert v fits
  | remove id => exact h.take id (few id.index)
  | write id f => exact h.write id f

end Keeps

/-! ## Runs -/

theorem size_slots_le_perform (a : Arena α) (r : Request α) :
    a.slots.size ≤ (a.perform r).2.slots.size := by
  cases r with
  | insert v => exact size_slots_le_insert a v
  | remove id => exact Nat.le_of_eq (size_slots_remove a id).symm
  | write id f => exact Nat.le_of_eq (size_slots_modify a id f).symm

theorem size_slots_le_run : ∀ (a : Arena α) (requests : List (Request α)),
    a.slots.size ≤ (a.run requests).2.slots.size
  | _, [] => Nat.le_refl _
  | a, r :: rs => Nat.le_trans (size_slots_le_perform a r) (size_slots_le_run _ rs)

/-- A run keeps the ledger line by line.  Slots and removals only grow, so what is bounded at the
end is bounded on the way. -/
theorem Keeps.run {ledger : List (Line α)} (h : Keeps ledger a) (requests : List (Request α))
    (fits : (a.run requests).2.Fits)
    (few : ∀ i, removals (ledger ++ (a.run requests).1) i < UInt32.size) :
    Keeps (ledger ++ (a.run requests).1) (a.run requests).2 := by
  induction requests generalizing a ledger with
  | nil => simpa [Arena.run] using h
  | cons r rs ih =>
    have hassoc : ledger ++ (a.run (r :: rs)).1 =
        ledger ++ [(a.perform r).1] ++ ((a.perform r).2.run rs).1 := by
      simp [Arena.run]
    rw [hassoc] at few ⊢
    have hstep : Keeps (ledger ++ [(a.perform r).1]) (a.perform r).2 :=
      h.perform r (Nat.le_trans (size_slots_le_run _ rs) fits)
        fun i => Nat.lt_of_le_of_lt (removals_le_append _ _ i) (few i)
    exact ih hstep fits few

/-- An arena is a finite map with fresh keys.  No identifier is issued twice, and the value of none
is taken out twice; the lookup finds what the ledger says is stored, also after an identifier went
through its word, and it finds something exactly under the identifiers that are outstanding.  Taking
out and replacing values answer by the same map and leave all other identifiers alone.  The listing
holds each stored value once, in the order of the slots, and the free list each empty slot once. -/
theorem run_refines_map {requests : List (Request α)} {ledger : List (Line α)}
    (hrun : empty.run requests = (ledger, a)) (fits : a.Fits)
    (few : ∀ i, removals ledger i < UInt32.size) :
    (issued ledger).Nodup ∧ (taken ledger).Nodup ∧
    (∀ id, a.get? id = stored ledger id ∧ a.get? (.ofBits id.toBits) = stored ledger id ∧
      (a.contains id = true ↔ Outstanding ledger id)) ∧
    (∀ id, (a.take id).1 = stored ledger id ∧
      ∀ j, (a.take id).2.get? j = if j = id then none else stored ledger j) ∧
    (∀ id f j, (a.modify id f).get? j =
      if j = id then (stored ledger j).map f else stored ledger j) ∧
    (∀ id v, (id, v) ∈ a.toList ↔ stored ledger id = some v) ∧
    (a.toList.Pairwise fun e e' => e.1.index < e'.1.index) ∧ a.toList.length = a.size ∧
    a.free.Nodup ∧ ∀ i, i ∈ a.free ↔ ∃ g, a.slots[i.toNat]? = some ⟨g, none⟩ := by
  have hkeeps : Keeps ledger a := by
    have h := (Keeps.empty (α := α)).run requests
    rw [hrun] at h
    exact h fits few
  refine ⟨hkeeps.nodup, ?_, fun id => ⟨hkeeps.get?_eq id, ?_, ?_⟩,
    fun id => ⟨hkeeps.get?_eq id, ?_⟩, fun id f j => ?_, fun id v => ?_, pairwise_toList fits,
    length_toList hkeeps.valid, hkeeps.valid.nodup_free, hkeeps.valid.mem_free⟩
  · refine List.nodup_iff_count.2 fun id => ?_
    have hissued := List.nodup_iff_count.1 hkeeps.nodup id
    have hbalance := hkeeps.balance id
    omega
  · rw [NodeId.ofBits_toBits, hkeeps.get?_eq]
  · rw [contains, hkeeps.get?_eq, isSome_stored_iff]
  · intro j
    rw [take, get?_remove, hkeeps.get?_eq]
  · rw [get?_modify, hkeeps.get?_eq]
  · rw [mem_toList fits, hkeeps.get?_eq]

theorem run_refines_map_reused :
    ∃ (ledger : List (Line Nat)) (a : Arena Nat),
      empty.run [.insert 5, .insert 6, .remove ⟨0, 0⟩, .insert 7, .write ⟨1, 0⟩ (· + 1),
        .remove ⟨0, 0⟩] = (ledger, a) ∧ a.Fits ∧ (∀ i, removals ledger i < UInt32.size) ∧
      issued ledger = [⟨0, 0⟩, ⟨1, 0⟩, ⟨0, 1⟩] ∧ (issued ledger).Nodup ∧
      a.get? ⟨0, 0⟩ = stored ledger ⟨0, 0⟩ ∧ stored ledger ⟨0, 0⟩ = none ∧
      a.get? ⟨0, 1⟩ = stored ledger ⟨0, 1⟩ ∧ stored ledger ⟨0, 1⟩ = some 7 ∧
      (a.take ⟨1, 0⟩).1 = stored ledger ⟨1, 0⟩ ∧ stored ledger ⟨1, 0⟩ = some 7 := by
  have hfew : ∀ i, removals (empty.run [.insert 5, .insert 6, .remove ⟨0, 0⟩, .insert 7,
      .write ⟨1, 0⟩ (· + 1), .remove ⟨0, 0⟩]).1 i < UInt32.size :=
    fun i => Nat.lt_of_le_of_lt (removals_le_length _ i) (by decide)
  obtain ⟨hissued, -, hget, htake, -⟩ := run_refines_map (α := Nat) rfl (by decide) hfew
  exact ⟨_, _, rfl, by decide, hfew, by decide, hissued, (hget _).1, by decide, (hget _).1,
    by decide, (htake _).1, by decide⟩

end Arena

end Freehand
