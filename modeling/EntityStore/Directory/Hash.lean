import EntityStore.TypeCode

/-!
The hash of a list of type codes. Words are folded one after the other into 64 bits: rotate by
five, add the word without carry, multiply by an odd constant. The length goes first.
-/
namespace EntityStore.Hash

def multiplier : UInt64 := 0x517cc1b727220a95

def mix (h word : UInt64) : UInt64 :=
  ((h <<< 5 ||| h >>> 59) ^^^ word) * multiplier

def ofCodes (ts : List TypeCode) : Nat :=
  (ts.foldl (fun h t => mix h (UInt64.ofNat t.raw)) (mix 0 (UInt64.ofNat ts.length))).toNat

end EntityStore.Hash
