import EntityStore.Bytes
import EntityStore.Handle

/-!
Kinds of stored values. A kind is what one component type stores: how large its values are, what a
new component starts with, and what happens when a value is made or given up. Values that somebody
owns are told apart by where they come from, whatever they contain.
-/
namespace EntityStore

/-- What a value contains: bytes held in place, or text held elsewhere. -/
inductive Content
  | bytes (data : List UInt8)
  | text (content : String)
  deriving DecidableEq, Repr

namespace Content

/-- The bytes held in place. -/
def data : Content → List UInt8
  | bytes bs => bs
  | text _ => []

def mapBytes (f : Nat → UInt8 → UInt8) : Content → Content
  | bytes bs => bytes (bs.mapIdx f)
  | text s => text s

end Content

/-- Where a value comes from: the store made it or a caller handed it over, as one of many. -/
inductive Origin
  | made (number : Nat)
  | given (number : Nat)
  deriving DecidableEq, Repr

/-- A stored value. What it contains may change while it lives, but not its origin. -/
structure Value where
  content : Content
  origin : Origin := .given 0
  deriving DecidableEq, Repr

namespace Value

def bytes (bs : List UInt8) : Value := { content := .bytes bs }

def text (s : String) (number : Nat := 0) : Value := { content := .text s, origin := .given number }

def data (v : Value) : List UInt8 := v.content.data

def amend (v : Value) (content : Content) : Value := { v with content }

end Value

namespace Handle

/-- The slot number as a signed and the version as an unsigned word of four bytes. -/
def value (h : Handle) : Value :=
  .bytes (Bytes.ofInt 4 h.index ++ Bytes.ofNat 4 h.version.toNat)

/-- The handle that eight bytes stand for. -/
def ofData (bs : List UInt8) : Handle :=
  ⟨Bytes.toInt (bs.take 4), UInt32.ofNat (Bytes.toNat (bs.drop 4))⟩

/-- The bytes of a handle determine it. -/
theorem ofData_value {h : Handle} (hlow : -Bytes.span 4 ≤ 2 * h.index)
    (hhigh : 2 * h.index < Bytes.span 4) : ofData h.value.data = h := by
  have hspan : Bytes.span 4 = UInt32.size := by decide
  have hindex : Bytes.toInt (Bytes.ofInt 4 h.index) = h.index := Bytes.toInt_ofInt hlow hhigh
  have hversion : Bytes.toNat (Bytes.ofNat 4 h.version.toNat) = h.version.toNat := by
    rw [Bytes.toNat_ofNat, hspan, Nat.mod_eq_of_lt h.version.toNat_lt]
  simp [ofData, value, Value.data, Value.bytes, Content.data, List.take_left', List.drop_left',
    hindex, hversion]

end Handle

structure Kind where
  name : String
  size : Nat
  align : Nat
  /-- What a new component contains. -/
  initial : Content
  /-- Values are owned: each must be given up exactly once. -/
  owned : Bool := false
  /-- Making a default value can fail. -/
  fallible : Bool := false
  deriving DecidableEq, Repr

namespace Kind

def sizeLimit : Nat := 0x7fff

/-- The kind of the handle column, listed under the given name. -/
def handle (name : String) : Kind :=
  { name, size := 8, align := 4, initial := Handle.null.value.content }

/-- A default value. Nobody tells those apart that nobody owns. -/
def default (k : Kind) (number : Nat) : Value :=
  { content := k.initial, origin := if k.owned then .made number else .given 0 }

end Kind

end EntityStore
