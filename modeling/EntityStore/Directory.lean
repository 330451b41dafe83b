import EntityStore.Fault
import EntityStore.Settings

/-!
The directory of archetypes: a map from lists of type codes to archetype numbers, kept in a table
of slots. A key is looked for from the slot that its hash names onwards, and around, until it or a
vacant slot is met; a key that was removed leaves a tombstone, so that the search goes on behind
it. The table doubles while fewer than a third of its slots are vacant, and halves while fewer than
a third are occupied.

The hash is a parameter of every operation: any function will do.
-/
namespace EntityStore

inductive Directory.Slot
  | vacant
  | tombstone
  | occupied (key : List TypeCode) (id : Nat)
  deriving DecidableEq, Repr

structure Directory where
  slots : Array Directory.Slot
  occupied : Nat := 0
  tombstones : Nat := 0
  minSize : Nat
  deriving Repr

namespace Directory

def vacantSlots (size : Nat) : Array Slot := Array.replicate size .vacant

/-- An empty directory; the number of slots is rounded up to a power of two. -/
def new (minSize : Nat) : Directory :=
  let size := Settings.indexSize minSize
  { slots := vacantSlots size, minSize := size }

def size (d : Directory) : Nat := d.occupied

def isEmpty (d : Directory) : Bool := d.size = 0

def capacity (d : Directory) : Nat := d.slots.size

def following (slots : Array Slot) (i : Nat) : Nat := (i + 1) % slots.size

/-- Looks at up to `steps` slots from `i` on for a key. -/
def probe (slots : Array Slot) (key : List TypeCode) : Nat → Nat → Option (Nat × Nat)
  | 0, _ => none
  | steps + 1, i =>
      match slots[i]? with
      | some (.occupied k id) =>
          if k = key then some (i, id) else probe slots key steps (following slots i)
      | some .tombstone => probe slots key steps (following slots i)
      | _ => none

/-- The slot of a key and the number it holds. -/
def find (hash : List TypeCode → Nat) (d : Directory) (key : List TypeCode) : Option (Nat × Nat) :=
  probe d.slots key d.slots.size (hash key % d.slots.size)

def get (hash : List TypeCode → Nat) (d : Directory) (key : List TypeCode) : Option Nat :=
  (d.find hash key).map Prod.snd

/-- The first of up to `steps` slots from `i` on that holds no key. -/
def probeFree (slots : Array Slot) : Nat → Nat → Option Nat
  | 0, _ => none
  | steps + 1, i =>
      match slots[i]? with
      | some (.occupied _ _) => probeFree slots steps (following slots i)
      | some _ => some i
      | none => none

def place (hash : List TypeCode → Nat) (d : Directory) (key : List TypeCode) (id : Nat) :
    Directory :=
  match probeFree d.slots d.slots.size (hash key % d.slots.size) with
  | none => d
  | some i =>
      { d with
        slots := d.slots.setIfInBounds i (.occupied key id)
        occupied := d.occupied + 1
        tombstones := if d.slots[i]? = some .tombstone then d.tombstones - 1 else d.tombstones }

def Slot.entry : Slot → Option (List TypeCode × Nat)
  | .occupied key id => some (key, id)
  | _ => none

def entries (d : Directory) : List (List TypeCode × Nat) := d.slots.toList.filterMap Slot.entry

@[simp] theorem entries_new (n : Nat) : (new n).entries = [] := by
  simp [entries, new, vacantSlots, Slot.entry]

/-- Moves every key to a table of the given size, which leaves the tombstones behind. -/
def resize (hash : List TypeCode → Nat) (d : Directory) (size : Nat) : Directory :=
  d.entries.foldl (fun d e => d.place hash e.1 e.2)
    { slots := vacantSlots (max size d.minSize), minSize := d.minSize }

/-- The directory with room for one more key. -/
def grown (hash : List TypeCode → Nat) (d : Directory) : Directory :=
  if (d.slots.size - d.occupied - d.tombstones - 1) * 3 < d.slots.size then
    d.resize hash (d.slots.size * 2)
  else d

def insert (hash : List TypeCode → Nat) (d : Directory) (key : List TypeCode) (id : Nat) :
    Except Fault Directory :=
  match d.find hash key with
  | some _ => .error (.invalidArgument (.alreadyIndexed key))
  | none => .ok ((d.grown hash).place hash key id)

/-- The directory without slots to spare. -/
def shrunk (hash : List TypeCode → Nat) (d : Directory) : Directory :=
  if d.occupied * 3 < d.slots.size ∧ d.minSize < d.slots.size then
    d.resize hash (d.slots.size / 2)
  else d

def erase (hash : List TypeCode → Nat) (d : Directory) (key : List TypeCode) :
    Option Nat × Directory :=
  match d.find hash key with
  | none => (none, d)
  | some (i, id) =>
      (some id, shrunk hash
        { d with
          slots := d.slots.setIfInBounds i .tombstone
          occupied := d.occupied - 1
          tombstones := d.tombstones + 1 })

def text (d : Directory) : String :=
  Text.braced (d.entries.map fun e =>
    TypeCode.listText e.1 ++ ": ArchetypeId(" ++ Text.number e.2 ++ ")")

end Directory

end EntityStore
