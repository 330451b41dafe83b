import EntityStore.Chunk
import EntityStore.Layout
import EntityStore.Pool
import EntityStore.TypeCode.Ascending

/-!
Archetypes. An archetype holds the entities that have exactly its component types, packed densely
into chunks: all chunks but the last are full, and an entity that leaves is replaced by the last
one.
-/
namespace EntityStore

structure Archetype where
  id : Nat
  layout : Layout
  chunks : List Chunk := []
  count : Nat := 0
  maxChunks : Nat
  deriving DecidableEq, Repr

namespace Archetype

/-- An empty archetype. The registrations start with the handle column and ascend. -/
def new (id : Nat) (columns : List Registration) (s : Settings) : Except Fault Archetype :=
  match columns with
  | [] => .error (.invalidArgument .noTypes)
  | first :: rest =>
      if s.maxTypes < columns.length then
        .error (.capacityExceeded .archetypeTypes s.maxTypes)
      else if first.code ≠ TypeCode.entity then .error (.invalidArgument .handleNotFirst)
      else
        match Ascending.validate (rest.map Registration.code) with
        | .error f => .error f
        | .ok () =>
            (Layout.new columns s.bufferSize).map fun layout =>
              { id, layout, maxChunks := s.maxChunks }

def codes (a : Archetype) : List TypeCode := a.layout.codes

/-- The component types, the handle column left out. -/
def signature (a : Archetype) : List TypeCode := a.codes.tail

def capacity (a : Archetype) : Nat := a.layout.capacity

def isEmpty (a : Archetype) : Bool := a.count = 0

/-- The entities in storage order. -/
def rows (a : Archetype) : List Row := a.chunks.flatMap Chunk.rows

/-- The chunk of an entity and its position there. -/
def locate (a : Archetype) (i : Nat) : Except Fault (Nat × Nat) :=
  if i < a.count then .ok (i / a.capacity, i % a.capacity)
  else .error (.outOfRange .entity i a.count)

def row (a : Archetype) (i : Nat) : Except Fault Row :=
  match a.locate i with
  | .error f => .error f
  | .ok (k, p) =>
      match a.chunks[k]? with
      | none => .error (.outOfRange .chunk k a.chunks.length)
      | some c =>
          match c.rows[p]? with
          | none => .error (.outOfRange .chunkEntity p c.rows.length)
          | some r => .ok r

def handleAt (a : Archetype) (i : Nat) : Except Fault Handle := (a.row i).map Row.handle

def modifyChunk (a : Archetype) (k : Nat) (f : Chunk → Chunk) : Archetype :=
  { a with chunks := a.chunks.modify k f }

def modifyLast (a : Archetype) (f : Chunk → Chunk) : Archetype :=
  a.modifyChunk (a.chunks.length - 1) f

def hasRoom (a : Archetype) : Bool :=
  match a.chunks.getLast? with
  | none => false
  | some c => c.rows.length ≠ a.capacity

/-- Makes room for one more row, with a new chunk if the last one is full. -/
def reserve (a : Archetype) (p : Pool) (version : UInt32) : Except Fault (Archetype × Pool) :=
  if a.hasRoom then .ok (a, p)
  else if a.maxChunks ≤ a.chunks.length then
    .error (.capacityExceeded .archetypeChunks a.maxChunks)
  else
    p.take.map fun p =>
      ({ a with chunks := a.chunks ++ [Chunk.fresh a.layout.columns.length version] }, p)

def commit (a : Archetype) (r : Row) (version : UInt32) : Archetype :=
  { a.modifyLast (·.push r version) with count := a.count + 1 }

def trim (a : Archetype) (p : Pool) : Archetype × Pool :=
  match a.chunks.getLast? with
  | none => (a, p)
  | some c =>
      if c.rows.isEmpty then ({ a with chunks := a.chunks.dropLast }, p.give) else (a, p)

/-- Gives up the reserved place after the given columns of it had been written. -/
def abandon (a : Archetype) (columns : List Nat) (p : Pool) (version : UInt32) :
    Archetype × Pool :=
  (a.modifyLast (·.stampMany version columns)).trim p

def truncate (a : Archetype) (p : Pool) : Archetype × Pool :=
  { a.modifyLast Chunk.pop with count := a.count - 1 }.trim p

/-- Copies row `i` over row `j`, in the same chunk or from one chunk to another. Values without
bytes move like all others. -/
def copyRow (a : Archetype) (i j : Nat) (version : UInt32) : Except Fault Archetype :=
  match a.locate i, a.locate j with
  | .error f, _ => .error f
  | _, .error f => .error f
  | .ok (k, p), .ok (m, q) =>
      let n := a.layout.columns.length
      if k = m then .ok (a.modifyChunk m fun c => (c.copyWithin n p q).stampAll version)
      else
        match a.chunks[k]? with
        | none => .error (.outOfRange .chunk k a.chunks.length)
        | some source => .ok (a.modifyChunk m fun c => (c.copyFrom source n p q).stampAll version)

/-- Takes a row out. Unless it is the last one, the last row takes its place, and the handle in it
is the answer. -/
def remove (a : Archetype) (i : Nat) (p : Pool) (version : UInt32) :
    Except Fault (Option Handle × Archetype × Pool) :=
  match a.locate i with
  | .error f => .error f
  | .ok _ =>
      if i = a.count - 1 then .ok (none, a.truncate p)
      else
        match a.copyRow (a.count - 1) i version with
        | .error f => .error f
        | .ok a =>
            match a.handleAt i with
            | .error f => .error f
            | .ok h => .ok (some h, a.truncate p)

def cell (a : Archetype) (column i : Nat) : Except Fault Value :=
  match a.row i with
  | .error f => .error f
  | .ok r =>
      match r.cell column with
      | none => .error (.outOfRange .component column a.layout.columns.length)
      | some v => .ok v

/-- Changes one component of an entity, which stamps the column of its chunk. -/
def modifyCell (a : Archetype) (column i : Nat) (f : Value → Value) (version : UInt32) :
    Except Fault Archetype :=
  (a.locate i).map fun (k, p) => a.modifyChunk k (·.modifyCell p column f version)

def labelled (a : Archetype) (r : Row) : List (Registration × Value) :=
  a.layout.columns.tail.zip r.values

/-- The components of a row in some columns, each with its kind. -/
def cells (a : Archetype) (r : Row) (columns : List Nat) : List (Kind × Value) :=
  columns.filterMap fun j => (a.layout.kinds[j]?).bind fun k => (r.cell j).map fun v => (k, v)

def stampOf (a : Archetype) (chunk column : Nat) : Except Fault UInt32 :=
  match a.chunks[chunk]? with
  | none => .error (.outOfRange .chunk chunk a.chunks.length)
  | some c =>
      match c.stamps[column]? with
      | none => .error (.outOfRange .component column a.layout.columns.length)
      | some v => .ok v

def has (a : Archetype) (t : TypeCode) : Bool := (a.layout.indexOf t).isSome

def hasAll (a : Archetype) (ts : List TypeCode) : Bool := Ascending.includesAll a.codes ts

def lacksAll (a : Archetype) (ts : List TypeCode) : Bool := !Ascending.intersects a.codes ts

def indicesOf (a : Archetype) (ts : List TypeCode) : Option (List Nat) :=
  Ascending.indicesOf a.codes ts

def chunkValues (a : Archetype) (c : Chunk) : List (Kind × Value) :=
  a.layout.kinds.zipIdx.flatMap fun kj => (c.column kj.2).map fun v => (kj.1, v)

def values (a : Archetype) : List (Kind × Value) := a.chunks.flatMap a.chunkValues

def text (a : Archetype) : String :=
  Text.record "Archetype" [("id", "ArchetypeId(" ++ Text.number a.id ++ ")"),
    ("types", TypeCode.listText a.codes), ("count", Text.number a.count),
    ("chunks", Text.number a.chunks.length), ("chunk_capacity", Text.number a.capacity)]

end Archetype

end EntityStore
