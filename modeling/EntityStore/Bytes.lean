/-!
Little-endian numbers. A number that `w` bytes have room for and these bytes, the lowest first,
determine each other.
-/
namespace EntityStore.Bytes

/-- The lowest `w` bytes of `n`, the lowest first. -/
def ofNat : Nat → Nat → List UInt8
  | 0, _ => []
  | w + 1, n => UInt8.ofNat n :: ofNat w (n / 256)

def toNat : List UInt8 → Nat
  | [] => 0
  | b :: bs => b.toNat + 256 * toNat bs

/-- How many numbers `w` bytes can tell apart. -/
def span : Nat → Nat
  | 0 => 1
  | w + 1 => 256 * span w

/-- The two's complement of `n` in `w` bytes. -/
def ofInt (w : Nat) (n : Int) : List UInt8 := ofNat w (n % span w).toNat

/-- The number whose two's complement the bytes are. -/
def toInt (bs : List UInt8) : Int :=
  if 2 * toNat bs < span bs.length then toNat bs else (toNat bs : Int) - span bs.length

@[simp] theorem length_ofNat (w n : Nat) : (ofNat w n).length = w := by
  induction w generalizing n with
  | zero => rfl
  | succ w ih => simp [ofNat, ih]

@[simp] theorem length_ofInt (w : Nat) (n : Int) : (ofInt w n).length = w := by
  simp [ofInt]

theorem toNat_ofNat (w n : Nat) : toNat (ofNat w n) = n % span w := by
  induction w generalizing n with
  | zero => simp [ofNat, toNat, span, Nat.mod_one]
  | succ w ih => simp [ofNat, toNat, span, ih, Nat.mod_mul]

theorem span_pos (w : Nat) : 0 < span w := by
  induction w with
  | zero => decide
  | succ w ih => exact Nat.mul_pos (by decide) ih

/-- A number that `w` bytes have room for, its sign included, is read back. -/
theorem toInt_ofInt {w : Nat} {n : Int} (hlow : -span w ≤ 2 * n) (hhigh : 2 * n < span w) :
    toInt (ofInt w n) = n := by
  have hpos := span_pos w
  have hread : (toNat (ofInt w n) : Int) = n % span w := by
    rw [ofInt, toNat_ofNat, Int.natCast_emod, Int.toNat_of_nonneg (Int.emod_nonneg n (by omega)),
      Int.emod_emod]
  rw [toInt, length_ofInt]
  by_cases hn : 0 ≤ n
  · rw [Int.emod_eq_of_lt hn (by omega)] at hread
    rw [if_pos (by omega), hread]
  · have hwrap : n % span w = n + span w := by
      rw [← Int.add_emod_right, Int.emod_eq_of_lt (by omega) (by omega)]
    rw [if_neg (by omega), hread, hwrap]
    omega

end EntityStore.Bytes
