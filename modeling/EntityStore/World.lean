import EntityStore.Catalogue
import EntityStore.Handle.Table
import EntityStore.Kind.Lifetimes

/-!
The state of the store: entities with their handles, archetypes with their chunks, and what they
share. `Step` is what an operation does to it. An operation that fails leaves a state behind too.
-/
namespace EntityStore

structure World where
  registry : Registry
  lifetimes : Lifetimes := {}
  settings : Settings
  pool : Pool
  handles : HandleTable := {}
  catalogue : Catalogue
  version : UInt32 := Epoch.first

/-- An operation on the store: an answer or a failure, and in both cases the state afterwards. -/
abbrev Step (α : Type) := EStateM Failure World α

namespace World

def create (registry : Registry) (settings : Settings)
    (supply : Option Nat := Pool.usualSupply settings.chunkSize)
    (hash : List TypeCode → Nat := Hash.ofCodes) : Except Fault World :=
  (Pool.new settings.chunkSize settings.retained supply).map fun pool =>
    { registry, settings, pool, catalogue := Catalogue.new settings.indexMin hash }

def entityCount (w : World) : Nat := w.handles.live

def archetypeCount (w : World) : Nat := w.catalogue.active

def bump (w : World) : UInt32 × World :=
  let v := Epoch.next w.version
  (v, { w with version := v })

def flushPool (w : World) : World := { w with pool := w.pool.flush }

/-- Ends the store: every value is dropped, archetype by archetype, and every chunk is given back.
The pool may outlive the store. -/
def close (w : World) : Lifetimes × Pool :=
  let archetypes := w.catalogue.archetypes
  (w.lifetimes.dropAll (archetypes.flatMap Archetype.values),
    archetypes.foldl (fun p a => p.giveMany a.chunks.length) w.pool)

end World

namespace Step

def refuse {α : Type} (f : Fault) : Step α := fun w => .error (.refused f) w

def answering {α β : Type} (b : β) (s : Step α) : Step β := fun w =>
  match s w with
  | .ok _ w => .ok b w
  | .error e w => .error e w

end Step

end EntityStore
