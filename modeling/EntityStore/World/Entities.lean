import EntityStore.World.Placement

/-!
Entities and their component types: creation, destruction, adding and removing components.
-/
namespace EntityStore.World

def typesOf (w : World) (h : Handle) : Except Fault (List TypeCode) :=
  match w.handles.location h with
  | .error f => .error f
  | .ok none => .ok []
  | .ok (some l) => (w.catalogue.get l.archetype).map Archetype.signature

def createEntity : Step Handle := fun w =>
  match w.handles.allocate with
  | .error f => .error (.refused f) w
  | .ok (h, handles) => .ok h { w with handles }

/-- An entity with default values of the given types. If they are refused the new handle is freed
again; if a default cannot be made it stays, without components. -/
def createWith (ts : List TypeCode) : Step Handle := fun w =>
  match Ascending.validate ts with
  | .error f => .error (.refused f) w
  | .ok () =>
      match createEntity w with
      | .error e w => .error e w
      | .ok h w =>
          if ts.isEmpty then .ok h w
          else
            match insert h ts w with
            | .ok () w => .ok h w
            | .error .aborted w => .error .aborted w
            | .error (.refused f) w =>
                match w.handles.free h with
                | .error g => .error (.refused g) w
                | .ok handles => .error (.refused f) { w with handles }

/-- Brings an entity from the types it has to those that `target` makes of them and the given
ones. -/
def retype (target : List TypeCode → List TypeCode → List TypeCode) (h : Handle)
    (ts : List TypeCode) : Step Unit := fun w =>
  match Ascending.validate ts with
  | .error f => .error (.refused f) w
  | .ok () =>
      match w.typesOf h with
      | .error f => .error (.refused f) w
      | .ok current =>
          if (target current ts).length = current.length then .ok () w
          else move h (target current ts) w

def addComponents : Handle → List TypeCode → Step Unit := retype Ascending.union

def removeComponents : Handle → List TypeCode → Step Unit := retype Ascending.difference

def freeHandle (h : Handle) : Step Unit := fun w =>
  match w.handles.free h with
  | .error f => .error (.refused f) w
  | .ok handles => .ok () { w with handles }

def destroy (h : Handle) : Step Unit := fun w =>
  match w.handles.location h with
  | .error f => .error (.refused f) w
  | .ok none => freeHandle h w
  | .ok (some l) =>
      match vacate h l w with
      | .error e w => .error e w
      | .ok () w => freeHandle h w

end EntityStore.World
