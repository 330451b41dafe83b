import EntityStore.Archetype

/-!
Access to one chunk by column. A column is read or edited under a type code and as a kind of
value; both have to be those of the archetype.
-/
namespace EntityStore

/-- A chunk together with the layout that names its columns. -/
structure View where
  layout : Layout
  chunk : Chunk
  deriving DecidableEq, Repr

namespace View

def length (v : View) : Nat := v.chunk.rows.length

def isEmpty (v : View) : Bool := v.chunk.rows.isEmpty

def handles (v : View) : List Handle := v.chunk.rows.map Row.handle

def column (v : View) (j : Nat) : Except Fault (List Value) :=
  (v.layout.columnRange j v.length).map fun _ => v.chunk.column j

/-- The values of the column of a type, whatever they are. -/
def columnOf (v : View) (t : TypeCode) : Option (List Value) :=
  (v.layout.indexOf t).bind fun j => (v.column j).toOption

def columnAs (l : Layout) (k : Kind) (t : TypeCode) : Option Nat :=
  (l.indexOf t).filter fun j => l.kinds[j]? = some k

def components (v : View) (k : Kind) (t : TypeCode) : Option (List Value) :=
  (columnAs v.layout k t).bind fun j => (v.column j).toOption

def version (v : View) (t : TypeCode) : Option UInt32 :=
  (v.layout.indexOf t).bind fun j => v.chunk.stamps[j]?

/-- The column of a type was written after `since`. -/
def changed (v : View) (t : TypeCode) (since : UInt32) : Bool :=
  match v.version t with
  | none => false
  | some s => Epoch.isAfter s since

/-- The outcome of an edit: the chunk, the values replaced and the values now there. -/
structure Edited where
  chunk : Chunk
  replaced : List Value
  values : List Value
  deriving DecidableEq, Repr

def writeColumn (v : View) (j : Nat) (e : Edit) (version : UInt32) : Edited :=
  let c := v.chunk.editColumn j e version
  ⟨c, v.chunk.replaced j e, c.column j⟩

/-- Edits a column by its number. The handle column cannot be edited. -/
def editColumn (v : View) (j : Nat) (e : Edit) (version : UInt32) : Except Fault Edited :=
  match v.column j with
  | .error f => .error f
  | .ok _ =>
      if j = 0 then .error (.invalidArgument .readOnlyHandles)
      else .ok (v.writeColumn j e version)

def editComponents (v : View) (k : Kind) (t : TypeCode) (e : Edit) (version : UInt32) :
    Option Edited :=
  (columnAs v.layout k t).bind fun j => (v.editColumn j e version).toOption

end View

namespace Archetype

def view? (a : Archetype) (k : Nat) : Option View := a.chunks[k]?.map (⟨a.layout, ·⟩)

def views (a : Archetype) : List View := a.chunks.map (⟨a.layout, ·⟩)

end Archetype

end EntityStore
