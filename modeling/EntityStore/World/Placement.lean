import EntityStore.World

/-!
Placing entities. An entity without components is stored nowhere. Placing it, moving it to another
archetype and taking it out are the three ways in which its place changes. New components start
with default values; if one of those cannot be made, the reserved place is given up and the entity
stays where it was.
-/
namespace EntityStore.World

/-- A new archetype for the given types, not yet in the catalogue. -/
def draft (w : World) (ts : List TypeCode) : Except Fault Archetype :=
  match w.registry.registrations (TypeCode.entity :: ts) with
  | .error f => .error f
  | .ok columns => Archetype.new w.catalogue.nextId columns w.settings

/-- The archetype for exactly the given types, made if there is none. -/
def resolve (ts : List TypeCode) : Step Nat := fun w =>
  match w.catalogue.find? ts with
  | some id => .ok id w
  | none =>
      match w.draft ts with
      | .error f => .error (.refused f) w
      | .ok a =>
          match w.catalogue.add a with
          | .error f => .error (.refused f) w
          | .ok catalogue => .ok a.id { w with catalogue }

def recycle (w : World) (id : Nat) : World := { w with catalogue := w.catalogue.recycle id }

def setLocation (h : Handle) (l : Option Location) : Step Unit := fun w =>
  match w.handles.setLocation h l with
  | .error f => .error (.refused f) w
  | .ok handles => .ok () { w with handles }

def fill (h : Handle) (id : Nat) : Step Unit := fun w =>
  match w.catalogue.get id with
  | .error f => .error (.refused f) w
  | .ok a =>
      match a.reserve w.pool w.version with
      | .error f => .error (.refused f) (w.recycle id)
      | .ok (a, pool) =>
          match w.lifetimes.makeAll a.layout.kinds.tail with
          | (.error made, lifetimes) =>
              let (a, pool) := a.abandon (List.range (made + 2)) pool w.version
              .error .aborted { w with catalogue := w.catalogue.set id a, pool, lifetimes }
          | (.ok values, lifetimes) =>
              setLocation h (some ⟨id, a.count⟩)
                { w with
                  catalogue := w.catalogue.set id (a.commit ⟨h, values⟩ w.version)
                  pool, lifetimes }

/-- Stores an entity that has no place yet, with default values of the given types. -/
def insert (h : Handle) (ts : List TypeCode) : Step Unit := fun w =>
  match resolve ts w with
  | .error e w => .error e w
  | .ok id w => fill h id w

def removeRow (l : Location) : Step Unit := fun w =>
  match w.catalogue.get l.archetype with
  | .error f => .error (.refused f) w
  | .ok a =>
      match a.remove l.index w.pool w.version with
      | .error f => .error (.refused f) w
      | .ok (displaced, a, pool) =>
          let w := { w with catalogue := w.catalogue.set l.archetype a, pool }
          match displaced with
          | none => .ok () w
          | some d => setLocation d (some l) w

/-- Takes the row of an entity out of its archetype, which may become empty by that, and notes the
new place of the entity. -/
def relocate (h : Handle) (l : Location) (place : Option Location) : Step Unit := fun w =>
  match removeRow l w with
  | .error e w => .error e w
  | .ok () w =>
      match setLocation h place w with
      | .error e w => .error e w
      | .ok () w => .ok () (w.recycle l.archetype)

/-- Drops all components of an entity and takes it out of its archetype. -/
def vacate (h : Handle) (l : Location) : Step Unit := fun w =>
  match w.catalogue.get l.archetype with
  | .error f => .error (.refused f) w
  | .ok a =>
      match a.row l.index with
      | .error f => .error (.refused f) w
      | .ok r =>
          let lifetimes := w.lifetimes.dropAll (a.layout.kinds.tail.zip r.values)
          relocate h l none { w with lifetimes }

/-- The columns that have no partner, with their numbers. -/
def freshColumns (m : Ascending.Pairing) (target : Archetype) : List (Registration × Nat) :=
  ((target.layout.columns.zipIdx.zip m.partners).filter fun x => x.2.isNone).map Prod.fst

/-- The components of a row in other columns: carried over from the partner of the column, else from
the defaults, which stand in column order. -/
def carry (r : Row) : List (Option Nat) → List Value → List Value
  | [], _ => []
  | some j :: partners, defaults => (r.cell j).toList ++ carry r partners defaults
  | none :: partners, d :: defaults => d :: carry r partners defaults
  | none :: _, [] => []

/-- Moves a stored entity to another archetype. One pass over the columns of both tells which
components are carried over, which start with defaults and which are dropped. -/
def transfer (h : Handle) (l : Location) (id : Nat) : Step Unit := fun w =>
  match w.catalogue.get l.archetype, w.catalogue.get id with
  | .error f, _ => .error (.refused f) w
  | _, .error f => .error (.refused f) w
  | .ok source, .ok target =>
      match source.row l.index with
      | .error f => .error (.refused f) w
      | .ok r =>
          match target.reserve w.pool w.version with
          | .error f => .error (.refused f) (w.recycle id)
          | .ok (target, pool) =>
              let m := Ascending.pairUp source.codes target.codes
              let fresh := freshColumns m target
              match w.lifetimes.makeAll (fresh.map fun cj => cj.1.kind) with
              | (.error made, lifetimes) =>
                  let (target, pool) :=
                    target.abandon ((fresh.take (made + 1)).map Prod.snd) pool w.version
                  .error .aborted
                    { w with catalogue := w.catalogue.set id target, pool, lifetimes }
              | (.ok defaults, lifetimes) =>
                  let values := carry r m.partners.tail defaults
                  relocate h l (some ⟨id, target.count⟩)
                    { w with
                      catalogue := w.catalogue.set id (target.commit ⟨r.handle, values⟩ w.version)
                      pool
                      lifetimes := lifetimes.dropAll (source.cells r m.alone) }

def move (h : Handle) (ts : List TypeCode) : Step Unit := fun w =>
  match w.handles.location h with
  | .error f => .error (.refused f) w
  | .ok none => if ts.isEmpty then .ok () w else insert h ts w
  | .ok (some l) =>
      if ts.isEmpty then vacate h l w
      else
        match resolve ts w with
        | .error e w => .error e w
        | .ok id w => if id = l.archetype then .ok () w else transfer h l id w

end EntityStore.World
