/-!
Tuning of the store. Chunk sizes are whole multiples of the column alignment and leave room for
the header and one column.
-/
namespace EntityStore

structure Settings where
  chunkSize : Nat := 16384
  maxTypes : Nat := 128
  maxChunks : Nat := 65536
  retained : Nat := 0
  indexMin : Nat := 32
  deriving DecidableEq, Repr

namespace Settings

/-- Machine words are below. -/
def wordLimit : Nat := UInt64.size

/-- Bytes at the start of a chunk that hold no components. -/
def headerSize : Nat := 64

def alignUp (n : Nat) : Nat := (n + 63) / 64 * 64

theorem le_alignUp (n : Nat) : n ≤ alignUp n := by
  unfold alignUp
  omega

theorem alignUp_mod (n : Nat) : alignUp n % 64 = 0 := by
  simp [alignUp]

theorem alignUp_mono {m n : Nat} (h : m ≤ n) : alignUp m ≤ alignUp n := by
  unfold alignUp
  omega

def withChunkSize (s : Settings) (n : Nat) : Settings :=
  { s with chunkSize := alignUp (max n (headerSize + 64)) }

def withMaxTypes (s : Settings) (n : Nat) : Settings := { s with maxTypes := max n 1 }

def withMaxChunks (s : Settings) (n : Nat) : Settings := { s with maxChunks := max n 1 }

def withRetained (s : Settings) (n : Nat) : Settings := { s with retained := n }

/-- The least slot count of an archetype directory asked to have `n`: the next power of two from
four upwards. -/
def indexSize (n : Nat) : Nat := 1 <<< ((max n 4 - 1).log2 + 1)

theorem le_indexSize (n : Nat) : max n 4 ≤ indexSize n := by
  have h : max n 4 - 1 < indexSize n := by
    rw [indexSize, Nat.one_shiftLeft]
    exact Nat.lt_log2_self
  omega

def withIndexMin (s : Settings) (n : Nat) : Settings := { s with indexMin := indexSize n }

def bufferSize (s : Settings) : Nat := s.chunkSize - headerSize

end Settings

end EntityStore
