import EntityStore.Epoch
import EntityStore.Kind

/-!
Chunks. A chunk holds the components of some entities, a row for each, and remembers for each
column the version at which it was last written. Column 0 holds the handles.
-/
namespace EntityStore

structure Row where
  handle : Handle
  /-- The components, one for each column behind the handle column. -/
  values : List Value
  deriving DecidableEq, Repr

namespace Row

def cell (r : Row) : Nat → Option Value
  | 0 => some r.handle.value
  | j + 1 => r.values[j]?

/-- Changes the value in a column. In the handle column the bytes then stand for another handle. -/
def modify (r : Row) (f : Value → Value) : Nat → Row
  | 0 => { r with handle := Handle.ofData (f r.handle.value).data }
  | j + 1 => { r with values := r.values.modify j f }

def takeCell (r s : Row) : Nat → Row
  | 0 => { r with handle := s.handle }
  | j + 1 => { r with values := (s.values[j]?).elim r.values fun v => r.values.set j v }

@[simp] theorem handle_modify (r : Row) (f : Value → Value) (j : Nat) :
    (r.modify f (j + 1)).handle = r.handle := rfl

theorem cell_modify_of_ne {i j : Nat} (r : Row) (f : Value → Value) (h : i ≠ j) :
    (r.modify f j).cell i = r.cell i := by
  cases i <;> cases j <;> simp_all [cell, modify, Ne.symm]

end Row

/-- What becomes of a value that was opened for writing: it is left alone, changed where it stands,
or given up for another value. -/
inductive Change
  | leave
  | amend (content : Content)
  | replace (value : Value)
  deriving DecidableEq, Repr

namespace Change

def apply (old : Value) : Change → Value
  | leave => old
  | amend c => old.amend c
  | replace v => v

def givesUp : Change → Bool
  | replace _ => true
  | _ => false

end Change

/-- What becomes of each value of a column, given its position. -/
abbrev Edit := Nat → Value → Change

/-- Changes each byte of a column, given its position there, for values of `size` bytes. -/
def Edit.ofBytes (size : Nat) (f : Nat → UInt8 → UInt8) : Edit :=
  fun i v => .amend (v.content.mapBytes fun b => f (size * i + b))

structure Chunk where
  stamps : List UInt32
  rows : List Row
  deriving DecidableEq, Repr

namespace Chunk

/-- An empty chunk, all of whose columns count as written at `version`. -/
def fresh (columns : Nat) (version : UInt32) : Chunk := ⟨List.replicate columns version, []⟩

def stamp (c : Chunk) (version : UInt32) (column : Nat) : Chunk :=
  { c with stamps := c.stamps.set column version }

def stampMany (c : Chunk) (version : UInt32) (columns : List Nat) : Chunk :=
  columns.foldl (fun c j => c.stamp version j) c

def stampAll (c : Chunk) (version : UInt32) : Chunk :=
  { c with stamps := c.stamps.map fun _ => version }

def push (c : Chunk) (r : Row) (version : UInt32) : Chunk :=
  { c.stampAll version with rows := c.rows ++ [r] }

def copyCell (c source : Chunk) (src dst column : Nat) : Chunk :=
  match source.rows[src]? with
  | none => c
  | some r => { c with rows := c.rows.modify dst fun d => d.takeCell r column }

/-- Copies a row of the chunk over another, column by column. -/
def copyWithin (c : Chunk) (columns src dst : Nat) : Chunk :=
  (List.range columns).foldl (fun c j => c.copyCell c src dst j) c

/-- Copies a row of another chunk over one, column by column. -/
def copyFrom (c source : Chunk) (columns src dst : Nat) : Chunk :=
  (List.range columns).foldl (fun c j => c.copyCell source src dst j) c

/-- Drops the last row without a trace in the stamps. -/
def pop (c : Chunk) : Chunk := { c with rows := c.rows.dropLast }

@[simp] theorem rows_stamp (c : Chunk) (v : UInt32) (j : Nat) : (c.stamp v j).rows = c.rows := rfl

@[simp] theorem rows_stampAll (c : Chunk) (v : UInt32) : (c.stampAll v).rows = c.rows := rfl

@[simp] theorem rows_stampMany (c : Chunk) (v : UInt32) (js : List Nat) :
    (c.stampMany v js).rows = c.rows := by
  induction js generalizing c with
  | nil => rfl
  | cons j js ih => simpa [stampMany] using ih (c.stamp v j)

@[simp] theorem rows_push (c : Chunk) (r : Row) (v : UInt32) :
    (c.push r v).rows = c.rows ++ [r] := rfl

@[simp] theorem rows_pop (c : Chunk) : c.pop.rows = c.rows.dropLast := rfl

@[simp] theorem stamps_pop (c : Chunk) : c.pop.stamps = c.stamps := rfl

@[simp] theorem stamps_push (c : Chunk) (r : Row) (v : UInt32) :
    (c.push r v).stamps = c.stamps.map fun _ => v := rfl

def column (c : Chunk) (j : Nat) : List Value := c.rows.filterMap fun r => r.cell j

def modifyCell (c : Chunk) (position column : Nat) (f : Value → Value) (version : UInt32) : Chunk :=
  { c.stamp version column with rows := c.rows.modify position fun r => r.modify f column }

def editColumn (c : Chunk) (column : Nat) (e : Edit) (version : UInt32) : Chunk :=
  { c.stamp version column with
    rows := c.rows.mapIdx fun i r => r.modify (fun v => (e i v).apply v) column }

def replaced (c : Chunk) (column : Nat) (e : Edit) : List Value :=
  ((c.column column).zipIdx.filter fun vi => (e vi.2 vi.1).givesUp).map Prod.fst

end Chunk

end EntityStore
