import EntityStore.Chunk.View
import EntityStore.World

/-!
The store as text: a heading, then a line for each archetype, followed by one for each of its
chunks.
-/
namespace EntityStore.World

def chunkLine (number : Nat) (v : View) : String :=
  "    chunk #" ++ Text.number number ++ ": " ++ Text.number v.length ++ " entities, versions " ++
    Text.numbers (v.chunk.stamps.map UInt32.toNat) ++ "\n"

def archetypeLines (a : Archetype) : String :=
  "  " ++ a.text ++ "\n" ++
    String.join (a.views.zipIdx.map fun vi => chunkLine vi.2 vi.1)

def text (w : World) : String :=
  Text.record "EntityManager" [("entities", Text.number w.entityCount),
    ("archetypes", Text.number w.archetypeCount), ("version", Text.number w.version.toNat)] ++
    "\n" ++ String.join (w.catalogue.archetypes.map archetypeLines)

end EntityStore.World
