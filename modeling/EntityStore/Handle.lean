import EntityStore.Text

/-!
Handles of entities. A handle names a slot of the handle table together with the version the slot
had when the handle was issued. A negative slot number stands for no entity at all.
-/
namespace EntityStore

structure Handle where
  index : Int
  version : UInt32
  deriving DecidableEq, Repr

namespace Handle

def null : Handle := ⟨-1, 0⟩

/-- Only the slot number decides whether a handle is null. -/
def isNull (h : Handle) : Bool := h.index < 0

def le (a b : Handle) : Bool :=
  a.index < b.index || (a.index == b.index && a.version ≤ b.version)

def text (h : Handle) : String :=
  if h.isNull then "Entity(null)"
  else "Entity(" ++ Text.number h.index.toNat ++ "v" ++ Text.number h.version.toNat ++ ")"

theorem isNull_null : null.isNull = true := rfl

theorem isNull_iff {h : Handle} : h.isNull = true ↔ h.index < 0 := by
  simp [isNull]

end Handle

end EntityStore
