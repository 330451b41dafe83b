import EntityStore.Chunk.Borrow
import EntityStore.World

/-!
Edits of whole columns of a chunk. Each column opened for writing is stamped with the version of
the store; values that are replaced are dropped.
-/
namespace EntityStore.World

/-- The archetype and the view of one of its chunks. -/
def view? (w : World) (id chunk : Nat) : Option (Archetype × View) :=
  (w.catalogue.get? id).bind fun a => (a.view? chunk).map (a, ·)

def setChunk (w : World) (id : Nat) (a : Archetype) (chunk : Nat) (c : Chunk) : World :=
  { w with catalogue := w.catalogue.set id (a.modifyChunk chunk fun _ => c) }

/-- Changes the bytes of a column, given their position in the column. No value is dropped. -/
def editBytes (w : World) (id chunk column : Nat) (f : Nat → UInt8 → UInt8) :
    Option (Except Fault (List Value) × World) :=
  (w.view? id chunk).map fun (a, v) =>
    match v.editColumn column (.ofBytes ((a.layout.sizes[column]?).getD 0) f) w.version with
    | .error e => (.error e, w)
    | .ok d => (.ok d.values, w.setChunk id a chunk d.chunk)

/-- Edits the column of a type in a chunk. Answers the view afterwards and, if the column was
granted, its values. -/
def editComponents (w : World) (id chunk : Nat) (k : Kind) (t : TypeCode) (e : Edit) :
    Option ((View × Option (List Value)) × World) :=
  (w.view? id chunk).map fun (a, v) =>
    match v.editComponents k t e w.version with
    | none => ((v, none), w)
    | some d =>
        ((⟨v.layout, d.chunk⟩, some d.values),
          { w.setChunk id a chunk d.chunk with
            lifetimes := w.lifetimes.dropAll (d.replaced.map (k, ·)) })

/-- Edits the column of a type in `n` chunks of an archetype, from number `chunk` on. -/
def editRun (w : World) (id : Nat) (k : Kind) (t : TypeCode) (e : Edit) :
    Nat → Nat → List (View × Option (List Value)) × World
  | 0, _ => ([], w)
  | n + 1, chunk =>
      match w.editComponents id chunk k t e with
      | none => ([], w)
      | some (d, w) =>
          let (ds, w) := w.editRun id k t e n (chunk + 1)
          (d :: ds, w)

def editAll (w : World) (id : Nat) (k : Kind) (t : TypeCode) (e : Edit) :
    Option (List (View × Option (List Value)) × World) :=
  (w.catalogue.get? id).map fun a => w.editRun id k t e a.chunks.length 0

def borrow (w : World) (id chunk : Nat) (requests : List Borrows.Request) :
    Option (List (Option (List Value)) × World) :=
  (w.view? id chunk).map fun (a, v) =>
    let (seen, gone, b) := Borrows.serve { view := v, version := w.version } requests
    (seen, { w.setChunk id a chunk b.view.chunk with lifetimes := w.lifetimes.dropAll gone })

end EntityStore.World
