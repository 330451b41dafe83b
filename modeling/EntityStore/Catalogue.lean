import EntityStore.Archetype
import EntityStore.Directory
import EntityStore.Directory.Hash

/-!
The catalogue of archetypes, by number and by component types. Numbers of archetypes that were
given up are reused, last freed first.
-/
namespace EntityStore

inductive Catalogue.Slot
  | used (archetype : Archetype)
  | free (next : Option Nat)
  deriving Repr

structure Catalogue where
  slots : Array Catalogue.Slot := #[]
  freeHead : Option Nat := none
  active : Nat := 0
  directory : Directory
  /-- The hash that the directory goes by. -/
  hash : List TypeCode → Nat := Hash.ofCodes

namespace Catalogue

def new (minSize : Nat) (hash : List TypeCode → Nat := Hash.ofCodes) : Catalogue :=
  { directory := Directory.new minSize, hash }

def Slot.archetype? : Slot → Option Archetype
  | used a => some a
  | free _ => none

def get? (c : Catalogue) (id : Nat) : Option Archetype := c.slots[id]?.bind Slot.archetype?

def get (c : Catalogue) (id : Nat) : Except Fault Archetype :=
  match c.get? id with
  | some a => .ok a
  | none => .error (.outOfRange .archetype id c.slots.size)

def archetypes (c : Catalogue) : List Archetype := c.slots.toList.filterMap Slot.archetype?

def find? (c : Catalogue) (ts : List TypeCode) : Option Nat := c.directory.get c.hash ts

/-- The number that the next new archetype gets. -/
def nextId (c : Catalogue) : Nat := c.freeHead.getD c.slots.size

def add (c : Catalogue) (a : Archetype) : Except Fault Catalogue :=
  match c.directory.insert c.hash a.signature c.nextId with
  | .error f => .error f
  | .ok directory =>
      match c.freeHead with
      | none =>
          .ok { c with slots := c.slots.push (.used a), active := c.active + 1, directory }
      | some i =>
          match c.slots[i]? with
          | some (.free next) =>
              .ok { c with
                slots := c.slots.setIfInBounds i (.used a)
                freeHead := next
                active := c.active + 1
                directory }
          | _ => .error (.outOfRange .freeArchetype i c.slots.size)

def set (c : Catalogue) (id : Nat) (a : Archetype) : Catalogue :=
  { c with slots := c.slots.setIfInBounds id (.used a) }

/-- Gives up an archetype if no entity is left in it. -/
def recycle (c : Catalogue) (id : Nat) : Catalogue :=
  match c.get? id with
  | none => c
  | some a =>
      if a.isEmpty then
        { c with
          slots := c.slots.setIfInBounds id (.free c.freeHead)
          freeHead := some id
          active := c.active - 1
          directory := (c.directory.erase c.hash a.signature).2 }
      else c

end Catalogue

end EntityStore
