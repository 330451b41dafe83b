import EntityStore.Fault

/-!
The handle table. Each slot is live, with the place where its entity is stored if it is stored at
all, or free and chained to the next free slot. A freed slot is reused, last freed first, under a
new version, so that handles to its former entity stay invalid.
-/
namespace EntityStore

structure Location where
  archetype : Nat
  index : Nat
  deriving DecidableEq, Repr

namespace HandleTable

inductive Slot
  | live (location : Option Location)
  | free (next : Option Nat)
  deriving DecidableEq, Repr

structure Record where
  version : UInt32
  slot : Slot
  deriving DecidableEq, Repr

end HandleTable

structure HandleTable where
  records : Array HandleTable.Record := #[]
  freeHead : Option Nat := none
  live : Nat := 0
  deriving Repr

namespace HandleTable

def limit : Nat := 2147483647

/-- Brings a slot to life, the first free one or else a new one, without a location. -/
def allocate (t : HandleTable) : Except Fault (Handle × HandleTable) :=
  match t.freeHead with
  | some i =>
      match t.records[i]? with
      | some ⟨version, .free next⟩ =>
          .ok (⟨i, version⟩,
            { records := t.records.setIfInBounds i ⟨version, .live none⟩
              freeHead := next
              live := t.live + 1 })
      | _ => .error (.outOfRange .freeEntity i t.records.size)
  | none =>
      if limit ≤ t.records.size then .error (.capacityExceeded .entityTable limit)
      else
        .ok (⟨t.records.size, 1⟩,
          { t with records := t.records.push ⟨1, .live none⟩, live := t.live + 1 })

def location (t : HandleTable) (h : Handle) : Except Fault (Option Location) :=
  if h.index < 0 then .error (.invalidHandle h)
  else
    match t.records[h.index.toNat]? with
    | some ⟨version, .live l⟩ => if version = h.version then .ok l else .error (.invalidHandle h)
    | _ => .error (.invalidHandle h)

def isValid (t : HandleTable) (h : Handle) : Bool := (t.location h).isOk

def free (t : HandleTable) (h : Handle) : Except Fault HandleTable :=
  (t.location h).map fun _ =>
    { records := t.records.setIfInBounds h.index.toNat ⟨h.version + 1, .free t.freeHead⟩
      freeHead := some h.index.toNat
      live := t.live - 1 }

def setLocation (t : HandleTable) (h : Handle) (l : Option Location) : Except Fault HandleTable :=
  (t.location h).map fun _ =>
    { t with records := t.records.setIfInBounds h.index.toNat ⟨h.version, .live l⟩ }

end HandleTable

end EntityStore
