/-!
# Arenas

An arena stores values in slots and hands out an identifier for each.

* The slot of a removed value is used again, the one emptied last first.
* Each slot counts how often it was emptied, as its *generation*.  An identifier names a slot in one
  generation, so the identifier of a removed value finds nothing, even after its slot is used again.
* Positions and generations are words of 32 bits.  Both together are one word of 64 bits.
-/

namespace Freehand

/-- The identifier of a value in an arena. -/
structure NodeId where
  /-- The position of the slot. -/
  index : UInt32
  /-- How often the slot was emptied before the value was stored. -/
  generation : UInt32
  deriving DecidableEq, Repr, Inhabited

namespace NodeId

/-- The identifier as one word, with the generation in the upper half. -/
def toBits (id : NodeId) : UInt64 :=
  (id.generation.toUInt64 <<< 32) ||| id.index.toUInt64

/-- The identifier that a word stands for. -/
def ofBits (bits : UInt64) : NodeId :=
  ⟨bits.toUInt32, (bits >>> 32).toUInt32⟩

/-- The text of an identifier in messages. -/
def text (id : NodeId) : String :=
  s!"NodeId \x7b index: {id.index.toNat}, generation: {id.generation.toNat} \x7d"

end NodeId

/-- A slot of an arena. -/
structure Slot (α : Type) where
  /-- How often the slot was emptied. -/
  generation : UInt32
  /-- The value, if there is one. -/
  value : Option α
  deriving Repr

/-- Values in slots. -/
structure Arena (α : Type) where
  /-- The slots in the order of their positions. -/
  slots : Array (Slot α)
  /-- The positions of the empty slots, the one emptied last first. -/
  free : List UInt32
  /-- The number of values. -/
  size : Nat
  deriving Repr

namespace Arena

variable {α : Type}

/-- The arena without slots. -/
def empty : Arena α :=
  ⟨#[], [], 0⟩

instance : Inhabited (Arena α) := ⟨empty⟩

/-- The arena holds no values. -/
def isEmpty (a : Arena α) : Bool :=
  a.size == 0

/-- The slot that an identifier names, if it is in that generation. -/
def slot? (a : Arena α) (id : NodeId) : Option (Slot α) :=
  a.slots[id.index.toNat]?.filter fun s => s.generation == id.generation

/-- The value with an identifier. -/
def get? (a : Arena α) (id : NodeId) : Option α :=
  (a.slot? id).bind Slot.value

/-- There is a value with an identifier. -/
def contains (a : Arena α) (id : NodeId) : Bool :=
  (a.get? id).isSome

/-- The arena with the value of an identifier replaced; unchanged if there is none. -/
def modify (a : Arena α) (id : NodeId) (f : α → α) : Arena α :=
  if a.contains id then
    { a with slots := a.slots.modify id.index.toNat fun s => { s with value := s.value.map f } }
  else
    a

/-- Store a value. -/
def insert (a : Arena α) (v : α) : NodeId × Arena α :=
  match a.free with
  | index :: free =>
    let generation := (a.slots[index.toNat]?.map Slot.generation).getD 0
    (⟨index, generation⟩,
     ⟨a.slots.modify index.toNat fun s => { s with value := some v }, free, a.size + 1⟩)
  | [] =>
    (⟨UInt32.ofNat a.slots.size, 0⟩, ⟨a.slots.push ⟨0, some v⟩, [], a.size + 1⟩)

/-- The arena without the value of an identifier; unchanged if there is none. -/
def remove (a : Arena α) (id : NodeId) : Arena α :=
  if a.contains id then
    ⟨a.slots.modify id.index.toNat fun s => ⟨s.generation + 1, none⟩, id.index :: a.free, a.size - 1⟩
  else
    a

/-- Take a value out: the value of an identifier, if there is one, and the arena without it. -/
def take (a : Arena α) (id : NodeId) : Option α × Arena α :=
  (a.get? id, a.remove id)

/-- The values of a run of slots that starts at a position, with their identifiers. -/
def entriesFrom (index : Nat) : List (Slot α) → List (NodeId × α)
  | [] => []
  | ⟨generation, some v⟩ :: rest =>
    (⟨UInt32.ofNat index, generation⟩, v) :: entriesFrom (index + 1) rest
  | ⟨_, none⟩ :: rest => entriesFrom (index + 1) rest

/-- All values with their identifiers, in the order of their slots. -/
def toList (a : Arena α) : List (NodeId × α) :=
  entriesFrom 0 a.slots.toList

/-! ## Requests -/

/-- A request that may change an arena. -/
inductive Request (α : Type)
  /-- Store a value. -/
  | insert (v : α)
  /-- Take out the value of an identifier. -/
  | remove (id : NodeId)
  /-- Replace the value of an identifier. -/
  | write (id : NodeId) (f : α → α)

/-- A request with its answer. -/
inductive Line (α : Type)
  /-- A value was stored under an identifier. -/
  | inserted (v : α) (id : NodeId)
  /-- The value of an identifier was asked back. -/
  | removed (id : NodeId) (answer : Option α)
  /-- The value of an identifier was to be replaced, if there was one. -/
  | wrote (id : NodeId) (f : α → α) (found : Bool)

/-- The answer to a request, and the arena afterwards. -/
def perform (a : Arena α) : Request α → Line α × Arena α
  | .insert v => (.inserted v (a.insert v).1, (a.insert v).2)
  | .remove id => (.removed id (a.take id).1, (a.take id).2)
  | .write id f => (.wrote id f (a.contains id), a.modify id f)

/-- The ledger of a run of requests, and the arena afterwards. -/
def run (a : Arena α) : List (Request α) → List (Line α) × Arena α
  | [] => ([], a)
  | r :: rs => ((a.perform r).1 :: ((a.perform r).2.run rs).1, ((a.perform r).2.run rs).2)

end Arena

end Freehand
