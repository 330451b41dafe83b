/-!
The version clock. Every change of stored data is stamped with the current version, a 32-bit
number that counts upwards and around, leaving out zero, which stands for "never".
-/
namespace EntityStore.Epoch

def first : UInt32 := 1

def next (v : UInt32) : UInt32 :=
  if v + 1 = 0 then 1 else v + 1

/-- Whether something stamped `v` happened after `since`. Going from `since` up to `v` by less than
half of the 32-bit circle counts as later. -/
def isAfter (v since : UInt32) : Bool :=
  since == 0 || (0 < v - since && v - since < 0x80000000)

theorem next_ne_zero (v : UInt32) : next v ≠ 0 := by
  unfold next
  split
  · decide
  · assumption

theorem isAfter_zero (v : UInt32) : isAfter v 0 = true := by
  simp [isAfter]

end EntityStore.Epoch
