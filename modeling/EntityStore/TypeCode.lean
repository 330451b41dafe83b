import EntityStore.Text

/-!
Codes of component types. A code is one 32-bit word: the low thirteen bits number the type in its
registry, three high bits say how it is marked and whether its values have a size. Codes are
ordered as words, so the handle column comes first and types without a size come last.
-/
namespace EntityStore

/-- Marks that tell apart registrations of one kind of value. -/
structure Markers where
  prefab : Bool := false
  disabled : Bool := false
  deriving DecidableEq, Repr

namespace Markers

def none : Markers := {}

def union (a b : Markers) : Markers :=
  ⟨a.prefab || b.prefab, a.disabled || b.disabled⟩

/-- Every mark of `b` is one of `a`. -/
def contains (a b : Markers) : Bool :=
  (a.prefab || !b.prefab) && (a.disabled || !b.disabled)

def bits (m : Markers) : Nat :=
  (if m.prefab then 0x20000000 else 0) + (if m.disabled then 0x40000000 else 0)

def text (m : Markers) : String :=
  Text.braced ((if m.prefab then ["\"PREFAB\""] else []) ++
    (if m.disabled then ["\"DISABLED\""] else []))

end Markers

structure TypeCode where
  raw : Nat
  deriving DecidableEq, Repr

namespace TypeCode

/-- How many types a registry can number. -/
def indexLimit : Nat := 8192

/-- The column of handles, part of every archetype. -/
def entity : TypeCode := ⟨0⟩

def ofParts (index : Nat) (markers : Markers) (zeroSized : Bool) : TypeCode :=
  ⟨index + markers.bits + if zeroSized then 0x80000000 else 0⟩

def index (t : TypeCode) : Nat := t.raw % indexLimit

def prefab (t : TypeCode) : Bool := t.raw / 0x20000000 % 2 = 1

def disabled (t : TypeCode) : Bool := t.raw / 0x40000000 % 2 = 1

def zeroSized (t : TypeCode) : Bool := t.raw / 0x80000000 % 2 = 1

def markers (t : TypeCode) : Markers := ⟨t.prefab, t.disabled⟩

instance : LT TypeCode := ⟨fun a b => a.raw < b.raw⟩
instance : LE TypeCode := ⟨fun a b => a.raw ≤ b.raw⟩
instance (a b : TypeCode) : Decidable (a < b) := inferInstanceAs (Decidable (a.raw < b.raw))
instance (a b : TypeCode) : Decidable (a ≤ b) := inferInstanceAs (Decidable (a.raw ≤ b.raw))

theorem lt_def {a b : TypeCode} : a < b ↔ a.raw < b.raw := Iff.rfl
theorem le_def {a b : TypeCode} : a ≤ b ↔ a.raw ≤ b.raw := Iff.rfl

theorem ext_raw {a b : TypeCode} (h : a.raw = b.raw) : a = b := by
  cases a; cases b; simp_all

def text (t : TypeCode) : String :=
  "ComponentType(#" ++ Text.number t.index ++ (if t.zeroSized then " tag" else "") ++
    (if t.markers = Markers.none then "" else " " ++ t.markers.text) ++ ")"

def listText (ts : List TypeCode) : String := Text.bracketed (ts.map text)

end TypeCode

end EntityStore
