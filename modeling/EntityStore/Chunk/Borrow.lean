import EntityStore.Chunk.View

/-!
Several columns of one chunk at a time. A column may be shared any number of times, or claimed
once for writing, but not both. Two marks for each column tell which of them it is.
-/
namespace EntityStore

structure Borrows where
  view : View
  version : UInt32
  /-- For each column in turn, whether it is shared and whether it is claimed. -/
  marks : Vector Bool (2 * view.layout.columns.length) := Vector.replicate _ false
  deriving DecidableEq, Repr

namespace Borrows

def shared (b : Borrows) (j : Nat) : Bool := b.marks[2 * j]?.getD false

def claimed (b : Borrows) (j : Nat) : Bool := b.marks[2 * j + 1]?.getD false

def mark (b : Borrows) (i : Nat) : Borrows := { b with marks := b.marks.setIfInBounds i true }

/-- Marks a column as claimed if nobody has it, or as shared if nobody claims it. The handle column
is never claimed. -/
def take (b : Borrows) (j : Nat) (writing : Bool) : Option Borrows :=
  if writing ∧ j ≠ 0 ∧ ¬b.claimed j ∧ ¬b.shared j then some (b.mark (2 * j + 1))
  else if ¬writing ∧ ¬b.claimed j then some (b.mark (2 * j))
  else none

def share (b : Borrows) (k : Kind) (t : TypeCode) : Option (List Value × Borrows) :=
  match View.columnAs b.view.layout k t with
  | none => none
  | some j =>
      match b.take j false with
      | none => none
      | some b =>
          match b.view.column j with
          | .error _ => none
          | .ok vs => some (vs, b)

def claim (b : Borrows) (k : Kind) (t : TypeCode) (e : Edit) : Option (View.Edited × Borrows) :=
  match View.columnAs b.view.layout k t with
  | none => none
  | some j =>
      match b.take j true with
      | none => none
      | some b =>
          match b.view.column j with
          | .error _ => none
          | .ok _ =>
              let d := b.view.writeColumn j e b.version
              some (d, { b with view := ⟨b.view.layout, d.chunk⟩ })

/-- One request for a column; with an edit it asks for a claim. -/
structure Request where
  kind : Kind
  code : TypeCode
  edit : Option Edit

/-- Serves requests in order. Answers the values seen by each one that is granted, and the values
replaced, in order. -/
def serve (b : Borrows) : List Request → List (Option (List Value)) × List (Kind × Value) × Borrows
  | [] => ([], [], b)
  | r :: rs =>
      match r.edit with
      | none =>
          match b.share r.kind r.code with
          | none => let (seen, gone, b) := b.serve rs; (none :: seen, gone, b)
          | some (vs, b) => let (seen, gone, b) := b.serve rs; (some vs :: seen, gone, b)
      | some e =>
          match b.claim r.kind r.code e with
          | none => let (seen, gone, b) := b.serve rs; (none :: seen, gone, b)
          | some (d, b) =>
              let (seen, gone, b) := b.serve rs
              (some d.values :: seen, d.replaced.map (r.kind, ·) ++ gone, b)

end Borrows

end EntityStore
