import Freehand.Scene.Arena

/-!
# Arenas as finite maps

What the operations of an arena do to the lookup `Arena.get?`.

An arena is *valid* when its free list names each empty slot once and nothing else, and its size
counts the others.  In a valid arena whose slots can all be named by a word of 32 bits, the
identifier that `Arena.insert` hands out found nothing before.
-/

namespace Freehand

/-- An identifier is the position of its slot together with the generation. -/
theorem NodeId.eq_of_toNat {i j : NodeId} (hi : i.index.toNat = j.index.toNat)
    (hg : i.generation = j.generation) : i = j := by
  cases i
  cases j
  simp_all [UInt32.toNat_inj]

/-- An identifier is read back from its bits, the generation above the index. -/
theorem NodeId.ofBits_toBits (id : NodeId) : ofBits id.toBits = id := by
  have hindex := id.index.toNat_lt
  have hgeneration := id.generation.toNat_lt
  have hbits : id.toBits.toNat = id.generation.toNat * 2 ^ 32 + id.index.toNat := by
    have hshift : (id.generation.toUInt64 <<< 32).toNat = id.generation.toNat <<< 32 := by
      rw [UInt64.toNat_shiftLeft, UInt32.toNat_toUInt64]
      refine Nat.mod_eq_of_lt ?_
      change id.generation.toNat <<< 32 < 2 ^ 64
      rw [Nat.shiftLeft_eq]
      omega
    rw [toBits, UInt64.toNat_or, hshift, UInt32.toNat_toUInt64,
      ← Nat.shiftLeft_add_eq_or_of_lt hindex, Nat.shiftLeft_eq]
  refine NodeId.eq_of_toNat ?_ ?_
  · rw [ofBits, UInt64.toNat_toUInt32, hbits]
    omega
  · refine UInt32.toNat_inj.1 ?_
    rw [ofBits, UInt64.toNat_toUInt32, UInt64.toNat_shiftRight, hbits]
    simp [Nat.shiftRight_eq_div_pow]
    omega

namespace Arena

variable {α : Type}

/-! ## Lookup -/

/-- A value is found in the slot of the index, if that is of the same generation and not empty. -/
theorem get?_eq_some_iff {a : Arena α} {id : NodeId} {v : α} :
    a.get? id = some v ↔ a.slots[id.index.toNat]? = some ⟨id.generation, some v⟩ := by
  simp only [get?, slot?, Option.bind_eq_some_iff, Option.filter_eq_some_iff, beq_iff_eq]
  constructor
  · rintro ⟨⟨g, w⟩, ⟨hs, hg⟩, hw⟩
    rw [hs]
    simp_all
  · intro h
    exact ⟨⟨id.generation, some v⟩, ⟨h, rfl⟩, rfl⟩

theorem contains_iff {a : Arena α} {id : NodeId} :
    a.contains id = true ↔ ∃ v, a.get? id = some v := by
  rw [contains, Option.isSome_iff_exists]

theorem get?_eq_none {a : Arena α} {id : NodeId} (h : ¬a.contains id = true) :
    a.get? id = none := by
  cases hg : a.get? id with
  | none => rfl
  | some v => exact absurd (contains_iff.2 ⟨v, hg⟩) h

theorem index_lt {a : Arena α} {id : NodeId} {v : α} (h : a.get? id = some v) :
    id.index.toNat < a.slots.size := by
  obtain ⟨hlt, -⟩ := Array.getElem?_eq_some_iff.1 (get?_eq_some_iff.1 h)
  exact hlt

/-- A slot holds one value: its generation is that of the one identifier that finds it. -/
theorem eq_of_index_eq {a : Arena α} {id j : NodeId} {v w : α} (hv : a.get? id = some v)
    (hw : a.get? j = some w) (hi : id.index.toNat = j.index.toNat) : id = j := by
  have hs := get?_eq_some_iff.1 hv
  rw [hi, get?_eq_some_iff.1 hw] at hs
  injection hs with hs
  injection hs with hg
  exact NodeId.eq_of_toNat hi hg.symm

/-! ## Replacing and removing a value -/

/-- Replacing a value shows under its own identifier, and under no other. -/
theorem get?_modify (a : Arena α) (id : NodeId) (f : α → α) (j : NodeId) :
    (a.modify id f).get? j = if j = id then (a.get? j).map f else a.get? j := by
  by_cases hc : a.contains id = true
  · obtain ⟨v, hv⟩ := contains_iff.1 hc
    have hs := get?_eq_some_iff.1 hv
    rw [modify, if_pos hc]
    split
    next h =>
      subst h
      rw [hv, Option.map_some, get?_eq_some_iff, Array.getElem?_modify, if_pos rfl, hs]
      rfl
    next h =>
      ext w
      rw [get?_eq_some_iff, get?_eq_some_iff, Array.getElem?_modify]
      split
      next hi =>
        have hg : id.generation ≠ j.generation := fun hg => h (NodeId.eq_of_toNat hi hg).symm
        rw [← hi, hs]
        simp [hg]
      next => rfl
  · rw [modify, if_neg hc]
    split
    next h => rw [h, get?_eq_none hc, Option.map_none]
    next => rfl

/-- A removed value is found no more.  No other is lost, as the slot keeps one value at a time. -/
theorem get?_remove (a : Arena α) (id j : NodeId) :
    (a.remove id).get? j = if j = id then none else a.get? j := by
  by_cases hc : a.contains id = true
  · obtain ⟨v, hv⟩ := contains_iff.1 hc
    have hs := get?_eq_some_iff.1 hv
    rw [remove, if_pos hc]
    by_cases hi : id.index.toNat = j.index.toNat
    · have hnone : (if j = id then none else a.get? j) = none := by
        split
        next => rfl
        next h =>
          cases hg : a.get? j with
          | none => rfl
          | some w => exact absurd (eq_of_index_eq hv hg hi).symm h
      rw [hnone, Option.eq_none_iff_forall_ne_some]
      intro w hw
      rw [get?_eq_some_iff, Array.getElem?_modify, if_pos hi, ← hi, hs] at hw
      simp at hw
    · have hne : j ≠ id := fun h => hi (by rw [h])
      ext w
      rw [if_neg hne, get?_eq_some_iff, get?_eq_some_iff, Array.getElem?_modify, if_neg hi]
  · rw [remove, if_neg hc]
    split
    next h => rw [h, get?_eq_none hc]
    next => rfl

theorem size_slots_modify (a : Arena α) (id : NodeId) (f : α → α) :
    (a.modify id f).slots.size = a.slots.size := by
  rw [modify]
  split
  · exact Array.size_modify
  · rfl

theorem size_slots_remove (a : Arena α) (id : NodeId) :
    (a.remove id).slots.size = a.slots.size := by
  rw [remove]
  split
  · exact Array.size_modify
  · rfl

/-- A change that keeps the value it is applied to is none. -/
theorem modify_eq_self {a : Arena α} {id : NodeId} {f : α → α}
    (h : ∀ v, a.get? id = some v → f v = v) : a.modify id f = a := by
  rw [modify]
  split
  next hc =>
    obtain ⟨v, hv⟩ := contains_iff.1 hc
    have hs := get?_eq_some_iff.1 hv
    have hslots : a.slots.modify id.index.toNat (fun s => { s with value := s.value.map f }) =
        a.slots := by
      apply Array.ext_getElem?
      intro i
      rw [Array.getElem?_modify]
      split
      next hi =>
        rw [← hi, hs, Option.map_some, Option.map_some, h v hv]
      next => rfl
    rw [hslots]
  next => rfl

/-! ## Valid arenas -/

/-- The free list names each empty slot once and nothing else, and the size counts the others. -/
structure Valid (a : Arena α) : Prop where
  nodup_free : a.free.Nodup
  mem_free : ∀ i, i ∈ a.free ↔ ∃ g, a.slots[i.toNat]? = some ⟨g, none⟩
  size_eq : a.size = a.slots.toList.countP fun s => s.value.isSome

/-- Words of 32 bits are enough to name the slots. -/
def Fits (a : Arena α) : Prop :=
  a.slots.size ≤ UInt32.size

instance (a : Arena α) : Decidable a.Fits :=
  inferInstanceAs (Decidable (_ ≤ _))

theorem valid_empty : (empty : Arena α).Valid :=
  ⟨List.nodup_nil, by simp [empty], rfl⟩

/-- Counting after one entry of a list was replaced. -/
theorem countP_modify {β : Type} (p : β → Bool) (f : β → β) :
    ∀ {l : List β} {i : Nat} {b : β}, l[i]? = some b →
      (l.modify i f).countP p + (p b).toNat = l.countP p + (p (f b)).toNat
  | [], _, _, h => by simp at h
  | c :: l, 0, b, h => by
    have hb : c = b := by simpa using h
    subst hb
    cases hc : p c <;> cases hf : p (f c) <;> simp [hc, hf]
  | c :: l, i + 1, b, h => by
    have ih := countP_modify p f (l := l) (i := i) (b := b) (by simpa using h)
    simp only [List.modify_succ_cons, List.countP_cons]
    omega

/-- No slot is emptied or filled by a replacement. -/
theorem Valid.modify {a : Arena α} (h : a.Valid) (id : NodeId) (f : α → α) :
    (a.modify id f).Valid := by
  by_cases hc : a.contains id = true
  · obtain ⟨v, hv⟩ := contains_iff.1 hc
    have hs := get?_eq_some_iff.1 hv
    refine ⟨?_, fun i => ?_, ?_⟩
    · rw [Arena.modify, if_pos hc]
      exact h.nodup_free
    · rw [Arena.modify, if_pos hc, h.mem_free, Array.getElem?_modify]
      split
      next hi => simp [← hi, hs]
      next => rfl
    · have hcount := countP_modify (fun s : Slot α => s.value.isSome)
        (fun s => { s with value := s.value.map f }) (l := a.slots.toList)
        (by rw [Array.getElem?_toList]; exact hs)
      simp only [Option.map_some, Option.isSome_some, Nat.add_right_cancel_iff] at hcount
      rw [Arena.modify, if_pos hc, Array.toList_modify, hcount]
      exact h.size_eq
  · rw [Arena.modify, if_neg hc]
    exact h

/-- A removal moves one slot from the ones in use to the free list. -/
theorem Valid.remove {a : Arena α} (h : a.Valid) (id : NodeId) : (a.remove id).Valid := by
  by_cases hc : a.contains id = true
  · obtain ⟨v, hv⟩ := contains_iff.1 hc
    have hs := get?_eq_some_iff.1 hv
    have hused : id.index ∉ a.free := by
      rw [h.mem_free, hs]
      simp
    refine ⟨?_, fun i => ?_, ?_⟩
    · rw [Arena.remove, if_pos hc]
      exact List.nodup_cons.2 ⟨hused, h.nodup_free⟩
    · rw [Arena.remove, if_pos hc, List.mem_cons, h.mem_free, Array.getElem?_modify]
      split
      next hi => simp [← hi, hs, UInt32.toNat_inj.1 hi]
      next hi =>
        have hne : i ≠ id.index := fun h => hi (by rw [h])
        simp [hne]
    · have hcount := countP_modify (fun s : Slot α => s.value.isSome)
        (fun s => ⟨s.generation + 1, none⟩) (l := a.slots.toList)
        (by rw [Array.getElem?_toList]; exact hs)
      simp only [Option.isSome_some, Option.isSome_none, Bool.toNat_true, Bool.toNat_false]
        at hcount
      rw [Arena.remove, if_pos hc, Array.toList_modify]
      have := h.size_eq
      show a.size - 1 = _
      omega
  · rw [Arena.remove, if_neg hc]
    exact h

/-! ## Storing a value -/

theorem size_slots_le_insert (a : Arena α) (v : α) :
    a.slots.size ≤ (a.insert v).2.slots.size := by
  rw [insert]
  split
  · simp
  · simp

/-- What storing a value does: it fills an empty slot, the one emptied last or else a new one. -/
theorem insert_cases {a : Arena α} (h : a.Valid) (v : α) (fits : (a.insert v).2.Fits) :
    (∃ i g free, a.free = i :: free ∧ a.slots[i.toNat]? = some ⟨g, none⟩ ∧
      a.insert v = (⟨i, g⟩,
        ⟨a.slots.modify i.toNat fun s => { s with value := some v }, free, a.size + 1⟩)) ∨
    (a.free = [] ∧ ∃ i : UInt32, i.toNat = a.slots.size ∧
      a.insert v = (⟨i, 0⟩, ⟨a.slots.push ⟨0, some v⟩, [], a.size + 1⟩)) := by
  rw [insert] at fits ⊢
  cases hf : a.free with
  | nil =>
    right
    rw [hf] at fits
    simp only [Fits, Array.size_push] at fits
    refine ⟨rfl, _, ?_, rfl⟩
    exact UInt32.toNat_ofNat_of_lt' fits
  | cons i free =>
    left
    obtain ⟨g, hg⟩ := (h.mem_free i).1 (by simp [hf])
    refine ⟨i, g, free, rfl, hg, ?_⟩
    simp [hg]

/-- What is stored under a new identifier was not there before. -/
theorem get?_insert_fst {a : Arena α} (h : a.Valid) (v : α) (fits : (a.insert v).2.Fits) :
    a.get? (a.insert v).1 = none := by
  rw [Option.eq_none_iff_forall_ne_some]
  intro w hw
  rcases insert_cases h v fits with ⟨i, g, free, -, hg, he⟩ | ⟨-, i, hi, he⟩
  · rw [he, get?_eq_some_iff, hg] at hw
    simp at hw
  · rw [he, get?_eq_some_iff, hi] at hw
    simp at hw

/-- A stored value is found under its new identifier, and the others are found as before. -/
theorem get?_insert {a : Arena α} (h : a.Valid) (v : α) (fits : (a.insert v).2.Fits)
    (j : NodeId) :
    (a.insert v).2.get? j = if j = (a.insert v).1 then some v else a.get? j := by
  rcases insert_cases h v fits with ⟨i, g, free, -, hg, he⟩ | ⟨-, i, hi, he⟩
  · rw [he]
    ext w
    by_cases hj : i.toNat = j.index.toNat
    · have hnone : a.get? j = none := by
        rw [Option.eq_none_iff_forall_ne_some]
        intro w hw
        rw [get?_eq_some_iff, ← hj, hg] at hw
        simp at hw
      have hiff : j = ⟨i, g⟩ ↔ g = j.generation :=
        ⟨fun h => by rw [h], fun h => NodeId.eq_of_toNat hj.symm h.symm⟩
      rw [get?_eq_some_iff, Array.getElem?_modify, if_pos hj, ← hj, hg]
      split
      next h => simp [hiff.1 h]
      next h => simp [hnone, mt hiff.2 h]
    · have hne : j ≠ ⟨i, g⟩ := fun h => hj (by rw [h])
      rw [if_neg hne, get?_eq_some_iff, get?_eq_some_iff, Array.getElem?_modify, if_neg hj]
  · rw [he]
    ext w
    by_cases hj : j.index.toNat = a.slots.size
    · have hnone : a.get? j = none := by
        rw [Option.eq_none_iff_forall_ne_some]
        intro w hw
        exact absurd (index_lt hw) (by omega)
      have hiff : j = ⟨i, 0⟩ ↔ 0 = j.generation :=
        ⟨fun h => by rw [h], fun h => NodeId.eq_of_toNat (hj.trans hi.symm) h.symm⟩
      rw [get?_eq_some_iff, Array.getElem?_push, if_pos hj]
      split
      next h => simp [hiff.1 h]
      next h => simp [hnone, mt hiff.2 h]
    · have hne : j ≠ ⟨i, 0⟩ := fun h => hj (by rw [h]; exact hi)
      rw [if_neg hne, get?_eq_some_iff, get?_eq_some_iff, Array.getElem?_push, if_neg hj]

/-- An insertion takes a slot from the free list, or adds one while there are identifiers for it. -/
theorem Valid.insert {a : Arena α} (h : a.Valid) (v : α) (fits : (a.insert v).2.Fits) :
    (a.insert v).2.Valid := by
  rcases insert_cases h v fits with ⟨i, g, free, hfree, hg, he⟩ | ⟨hfree, i, hi, he⟩
  · have hnodup := h.nodup_free
    rw [hfree, List.nodup_cons] at hnodup
    rw [he]
    refine ⟨hnodup.2, fun k => ?_, ?_⟩
    · have hk := h.mem_free k
      rw [hfree, List.mem_cons] at hk
      rw [Array.getElem?_modify]
      split
      next hik =>
        have hki : k = i := (UInt32.toNat_inj.1 hik).symm
        rw [hki, hg]
        simpa using hnodup.1
      next hik =>
        have hki : k ≠ i := fun h => hik (by rw [h])
        rw [← hk]
        simp [hki]
    · have hcount := countP_modify (fun s : Slot α => s.value.isSome)
        (fun s => { s with value := some v }) (l := a.slots.toList)
        (by rw [Array.getElem?_toList]; exact hg)
      simp only [Option.isSome_some, Option.isSome_none, Bool.toNat_true, Bool.toNat_false]
        at hcount
      rw [Array.toList_modify]
      have := h.size_eq
      show a.size + 1 = _
      omega
  · rw [he]
    refine ⟨List.nodup_nil, fun k => ?_, ?_⟩
    · have hk := h.mem_free k
      rw [hfree] at hk
      rw [Array.getElem?_push]
      split
      next => simp
      next => exact hk
    · have := h.size_eq
      simp [List.countP_append, this]

/-! ## Listing the values -/

theorem length_entriesFrom : ∀ (k : Nat) (slots : List (Slot α)),
    (entriesFrom k slots).length = slots.countP fun s => s.value.isSome
  | _, [] => rfl
  | k, ⟨_, some _⟩ :: rest => by simp [entriesFrom, length_entriesFrom (k + 1) rest]
  | k, ⟨_, none⟩ :: rest => by simp [entriesFrom, length_entriesFrom (k + 1) rest]

/-- The entries of a run of slots are its values, each under the position of its slot. -/
theorem mem_entriesFrom {id : NodeId} {v : α} :
    ∀ {k : Nat} {slots : List (Slot α)}, k + slots.length ≤ UInt32.size →
      ((id, v) ∈ entriesFrom k slots ↔
        k ≤ id.index.toNat ∧ slots[id.index.toNat - k]? = some ⟨id.generation, some v⟩)
  | k, [], _ => by simp [entriesFrom]
  | k, ⟨g, w⟩ :: rest, fits => by
    have hk : k < UInt32.size := by simp at fits; omega
    have ih : (id, v) ∈ entriesFrom (k + 1) rest ↔ k + 1 ≤ id.index.toNat ∧
        rest[id.index.toNat - (k + 1)]? = some ⟨id.generation, some v⟩ :=
      mem_entriesFrom (by simp at fits; omega)
    rcases Nat.lt_trichotomy id.index.toNat k with hlt | heq | hgt
    · have hne : id.index ≠ UInt32.ofNat k := by
        intro h
        rw [h, UInt32.toNat_ofNat_of_lt' hk] at hlt
        omega
      have hid : ∀ w, (id, v) ≠ (⟨UInt32.ofNat k, g⟩, w) := fun w h => hne (by cases h; rfl)
      cases w <;> simp [entriesFrom, ih, hid] <;> omega
    · have hsub : id.index.toNat - k = 0 := by omega
      have hnot : ¬k + 1 ≤ id.index.toNat := by omega
      have hid : id.index = UInt32.ofNat k :=
        UInt32.toNat_inj.1 (by rw [heq, UInt32.toNat_ofNat_of_lt' hk])
      cases w with
      | none => simp [entriesFrom, ih, hsub, hnot]
      | some w =>
        have hhead : (id, v) = (⟨UInt32.ofNat k, g⟩, w) ↔ g = id.generation ∧ w = v := by
          constructor
          · intro h
            cases h
            exact ⟨rfl, rfl⟩
          · rintro ⟨rfl, rfl⟩
            rw [← hid]
        have hle : k ≤ id.index.toNat := Nat.le_of_eq heq.symm
        rw [entriesFrom, List.mem_cons, hhead, ih, hsub]
        simp only [hnot, hle, false_and, or_false, true_and, List.getElem?_cons_zero,
          Option.some.injEq, Slot.mk.injEq]
    · have hsub : id.index.toNat - k = (id.index.toNat - (k + 1)) + 1 := by omega
      have hid : ∀ w, (id, v) ≠ (⟨UInt32.ofNat k, g⟩, w) := by
        intro w h
        cases h
        simp only [UInt32.toNat_ofNat_of_lt' hk] at hgt
        omega
      cases w <;> simp [entriesFrom, ih, hid, hsub] <;> omega

/-- What is listed is what is found. -/
theorem mem_toList {a : Arena α} (fits : a.Fits) {id : NodeId} {v : α} :
    (id, v) ∈ a.toList ↔ a.get? id = some v := by
  have hlen : 0 + a.slots.toList.length ≤ UInt32.size := by
    rw [Nat.zero_add]
    exact fits
  rw [toList, mem_entriesFrom hlen, get?_eq_some_iff]
  simp

/-- Entries are listed in the order of their slots. -/
theorem pairwise_entriesFrom : ∀ {k : Nat} {slots : List (Slot α)},
    k + slots.length ≤ UInt32.size →
      (entriesFrom k slots).Pairwise fun e e' => e.1.index < e'.1.index
  | k, [], _ => List.Pairwise.nil
  | k, ⟨g, none⟩ :: rest, fits => pairwise_entriesFrom (k := k + 1) (by simp at fits; omega)
  | k, ⟨g, some w⟩ :: rest, fits => by
    have hrest : k + 1 + rest.length ≤ UInt32.size := by simp at fits; omega
    refine List.pairwise_cons.2 ⟨?_, pairwise_entriesFrom hrest⟩
    intro e he
    have hle : k + 1 ≤ e.1.index.toNat := ((mem_entriesFrom (v := e.2) hrest).1 he).1
    rw [UInt32.lt_iff_toNat_lt, UInt32.toNat_ofNat_of_lt' (by omega)]
    omega

theorem length_toList {a : Arena α} (h : a.Valid) : a.toList.length = a.size := by
  rw [toList, length_entriesFrom, h.size_eq]

/-- Values are listed in the order of their slots. -/
theorem pairwise_toList {a : Arena α} (fits : a.Fits) :
    a.toList.Pairwise fun e e' => e.1.index < e'.1.index := by
  refine pairwise_entriesFrom ?_
  rw [Nat.zero_add]
  exact fits

/-- No identifier is listed twice. -/
theorem nodup_toList {a : Arena α} (fits : a.Fits) : (a.toList.map Prod.fst).Nodup := by
  refine List.pairwise_map.2 ((pairwise_toList fits).imp ?_)
  intro e e' hlt heq
  rw [heq] at hlt
  exact UInt32.lt_irrefl _ hlt

end Arena

end Freehand
