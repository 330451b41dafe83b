import EntityStore.Registry
import EntityStore.Settings
import EntityStore.TypeCode.Ascending

/-!
The layout of a chunk. Each column is a block of `capacity` values, padded to the column
alignment, and the columns follow each other. The capacity is the largest for which they fit.
-/
namespace EntityStore

structure Layout where
  columns : List Registration
  capacity : Nat
  deriving DecidableEq, Repr

namespace Layout

/-- The bytes of a column of `count` values of `size` bytes, padding included. -/
def paddedSize (size count : Nat) : Nat := Settings.alignUp (size * count)

/-- The same in machine words, unless they are too short for a step on the way. -/
def paddedSize? (size count : Nat) : Option Nat :=
  if size * count + 63 < Settings.wordLimit then some (paddedSize size count) else none

def addSize (count sum size : Nat) : Option Nat := do
  let sum := sum + (← paddedSize? size count)
  if sum < Settings.wordLimit then some sum else none

/-- The bytes that `count` values in each column take, unless a machine word is too short. -/
def required? (sizes : List Nat) (count : Nat) : Option Nat := sizes.foldlM (addSize count) 0

def roomFor (sizes : List Nat) (buffer count : Nat) : Bool :=
  (required? sizes count).any (· ≤ buffer)

def total (sizes : List Nat) : Nat := sizes.foldr (· + ·) 0

/-- The largest count up to `n` that fits. -/
def fit (sizes : List Nat) (buffer : Nat) : Nat → Nat
  | 0 => 0
  | n + 1 => if roomFor sizes buffer (n + 1) then n + 1 else fit sizes buffer n

/-- A chunk must have room for two entities. -/
def new (columns : List Registration) (buffer : Nat) : Except Fault Layout :=
  let sizes := columns.map fun c => c.kind.size
  let capacity := if total sizes = 0 then 0 else fit sizes buffer (buffer / total sizes)
  if capacity < 2 then .error (.capacityExceeded .chunkBytes buffer) else .ok ⟨columns, capacity⟩

def codes (l : Layout) : List TypeCode := l.columns.map Registration.code

def kinds (l : Layout) : List Kind := l.columns.map Registration.kind

def sizes (l : Layout) : List Nat := l.kinds.map Kind.size

/-- Where columns of the given sizes begin, the first of them at `start`. -/
def offsetsFrom (capacity start : Nat) : List Nat → List Nat
  | [] => []
  | size :: sizes => start :: offsetsFrom capacity (start + paddedSize size capacity) sizes

@[simp] theorem length_offsetsFrom (capacity start : Nat) (sizes : List Nat) :
    (offsetsFrom capacity start sizes).length = sizes.length := by
  induction sizes generalizing start with
  | nil => rfl
  | cons s sizes ih => simp [offsetsFrom, ih]

def offsets (l : Layout) : List Nat := offsetsFrom l.capacity 0 l.sizes

/-- The column of a type, which is searched by halves. -/
def indexOf (l : Layout) (t : TypeCode) : Option Nat := (Ascending.search l.codes t).toOption

/-- The bytes of the first `len` values of a column, from the first byte to the one behind. -/
def columnRange (l : Layout) (column len : Nat) : Except Fault (Nat × Nat) :=
  match l.offsets[column]?, l.sizes[column]? with
  | some start, some size =>
      if l.capacity < len then .error (.outOfRange .chunkEntity len l.capacity)
      else .ok (start, start + size * len)
  | _, _ => .error (.outOfRange .component column l.columns.length)

def cellRange (l : Layout) (column position : Nat) : Except Fault (Nat × Nat) :=
  match l.offsets[column]?, l.sizes[column]? with
  | some start, some size =>
      if l.capacity ≤ position then .error (.outOfRange .chunkEntity position l.capacity)
      else .ok (start + size * position, start + size * position + size)
  | _, _ => .error (.outOfRange .component column l.columns.length)

def text (l : Layout) : String :=
  Text.record "ChunkLayout" [("types", TypeCode.listText l.codes), ("sizes", Text.numbers l.sizes),
    ("offsets", Text.numbers l.offsets), ("capacity", Text.number l.capacity)]

end Layout

end EntityStore
