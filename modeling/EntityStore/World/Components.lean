import EntityStore.Chunk.View
import EntityStore.World.Entities

/-!
Components of single entities, by type code or by kind. A kind stands for its registration without
marks.
-/
namespace EntityStore.World

def component (w : World) (h : Handle) (t : TypeCode) : Except Fault (Option Value) :=
  match w.handles.location h with
  | .error f => .error f
  | .ok none => .ok none
  | .ok (some l) =>
      match w.catalogue.get l.archetype with
      | .error f => .error f
      | .ok a =>
          match a.layout.indexOf t with
          | none => .ok none
          | some j => (a.cell j l.index).map some

/-- Changes the component of an entity under a type code and answers what it was. Opening the
component for writing stamps its column, whether or not it changes. -/
def modifyComponent (h : Handle) (t : TypeCode) (f : Value → Value) : Step (Option Value) :=
  fun w =>
    if t = TypeCode.entity then .error (.refused (.invalidArgument .readOnlyHandles)) w
    else
      match w.handles.location h with
      | .error f => .error (.refused f) w
      | .ok none => .ok none w
      | .ok (some l) =>
          match w.catalogue.get l.archetype with
          | .error f => .error (.refused f) w
          | .ok a =>
              match a.layout.indexOf t with
              | none => .ok none w
              | some j =>
                  match a.cell j l.index, a.modifyCell j l.index f w.version with
                  | .ok v, .ok a =>
                      .ok (some v) { w with catalogue := w.catalogue.set l.archetype a }
                  | .error f, _ => .error (.refused f) w
                  | _, .error f => .error (.refused f) w

def get (w : World) (h : Handle) (k : Kind) : Except Fault (Option Value) :=
  match w.registry.lookup k .none with
  | some t => w.component h t
  | none => (w.handles.location h).map fun _ => none

/-- Puts a new value in place of the component of an entity of a kind. The old value is dropped and
is the answer. Without such a component nothing happens. -/
def exchange (h : Handle) (k : Kind) (v : Value) : Step (Option Value) := fun w =>
  match w.registry.lookup k .none with
  | none =>
      match w.handles.location h with
      | .error f => .error (.refused f) w
      | .ok _ => .ok none w
  | some t =>
      match modifyComponent h t (fun _ => v) w with
      | .error e w => .error e w
      | .ok none w => .ok none w
      | .ok (some old) w => .ok (some old) { w with lifetimes := w.lifetimes.drop k old }

def assign (h : Handle) (k : Kind) (v : Value) : Step Unit := fun w =>
  match w.registry.register k .none with
  | .error f => .error (.refused f) w
  | .ok (t, registry) =>
      match addComponents h [t] { w with registry } with
      | .error e w => .error e w
      | .ok () w =>
          match exchange h k v w with
          | .error e w => .error e w
          | .ok (some _) w => .ok () w
          | .ok none w => .error (.refused (.invalidArgument (.kindMismatch t k.name))) w

def put (h : Handle) (k : Kind) (v : Value) : Step Unit := fun w =>
  match assign h k v w with
  | .ok () w => .ok () w
  | .error e w => .error e { w with lifetimes := w.lifetimes.drop k v }

end EntityStore.World
