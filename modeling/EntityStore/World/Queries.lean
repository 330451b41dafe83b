import EntityStore.World.Entities

/-!
Questions about entities and archetypes.
-/
namespace EntityStore.World

def archetypeOf (w : World) (h : Handle) : Except Fault (Option Nat) :=
  (w.handles.location h).map fun l => l.map Location.archetype

def hasArchetype (w : World) (h : Handle) : Except Fault Bool :=
  (w.handles.location h).map Option.isSome

def hasComponent (w : World) (h : Handle) (t : TypeCode) : Except Fault Bool :=
  match w.handles.location h with
  | .error f => .error f
  | .ok none => .ok false
  | .ok (some l) => (w.catalogue.get l.archetype).map fun a => a.has t

def hasComponents (w : World) (h : Handle) (ts : List TypeCode) : Except Fault Bool :=
  match Ascending.validate ts with
  | .error f => .error f
  | .ok () =>
      match w.handles.location h with
      | .error f => .error f
      | .ok none => .ok ts.isEmpty
      | .ok (some l) => (w.catalogue.get l.archetype).map fun a => a.hasAll ts

/-- The archetypes with every type of `all` and no type of `none`, by number. -/
def matching (w : World) (all none : List TypeCode) : Except Fault (List Archetype) :=
  match Ascending.validate all with
  | .error f => .error f
  | .ok () =>
      (Ascending.validate none).map fun () =>
        w.catalogue.archetypes.filter fun a => a.hasAll all && a.lacksAll none

end EntityStore.World
