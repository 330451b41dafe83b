import Mathlib
import EntityStore.World

/-!
# The order of versions

Versions go around a circle of `2 ^ 32 - 1` numbers, for zero is left out. Of two versions less than
half the circle apart it can be told which one is later, but zero still counts when their distance
is taken: going around by `2 ^ 31 - 1` steps looks like going half around.
-/
namespace EntityStore.Epoch

variable {v s : UInt32} {n : Nat}

lemma toNat_pos (h : v ≠ 0) : 0 < v.toNat :=
  Nat.pos_of_ne_zero fun hz => h (UInt32.toNat_inj.mp hz)

lemma toNat_next (v : UInt32) : (next v).toNat = v.toNat % (2 ^ 32 - 1) + 1 := by
  have hlt := v.toNat_lt
  have hadd : (v + 1).toNat = (v.toNat + 1) % 2 ^ 32 := UInt32.toNat_add v 1
  unfold next
  split_ifs with hz
  · have hmax : (v.toNat + 1) % 2 ^ 32 = 0 := by
      rw [← hadd, hz]
      rfl
    have hone : (1 : UInt32).toNat = 1 := rfl
    omega
  · have hne : (v.toNat + 1) % 2 ^ 32 ≠ 0 := fun h => hz (UInt32.toNat_inj.mp (hadd.trans h))
    omega

theorem toNat_iterate_next (h : s ≠ 0) (n : Nat) :
    (next^[n] s).toNat = (s.toNat - 1 + n) % (2 ^ 32 - 1) + 1 := by
  have hpos := toNat_pos h
  have hlt := s.toNat_lt
  induction n with
  | zero =>
    rw [Function.iterate_zero_apply]
    omega
  | succ n ih =>
    rw [Function.iterate_succ_apply', toNat_next, ih]
    omega

lemma iterate_next_ne_zero (h : s ≠ 0) (n : Nat) : next^[n] s ≠ 0 := by
  intro hz
  have hpos := toNat_iterate_next h n
  rw [hz, UInt32.toNat_zero] at hpos
  omega

lemma exists_iterate_next (hs : s ≠ 0) (hv : v ≠ 0) : ∃ n, next^[n] s = v := by
  have hspos := toNat_pos hs
  have hvpos := toNat_pos hv
  have hslt := s.toNat_lt
  have hvlt := v.toNat_lt
  refine ⟨2 ^ 32 - 1 - s.toNat + v.toNat, UInt32.toNat_inj.mp ?_⟩
  rw [toNat_iterate_next hs]
  omega

lemma isAfter_iff : isAfter v s = true ↔ s = 0 ∨
    0 < (2 ^ 32 - s.toNat + v.toNat) % 2 ^ 32 ∧
      (2 ^ 32 - s.toNat + v.toNat) % 2 ^ 32 < 2 ^ 31 := by
  have hhalf : (0x80000000 : UInt32).toNat = 2 ^ 31 := rfl
  simp only [isAfter, Bool.or_eq_true, Bool.and_eq_true, beq_iff_eq, decide_eq_true_iff,
    UInt32.lt_iff_toNat_lt, UInt32.toNat_sub, UInt32.toNat_zero, hhalf]

/-- How far versions may be apart: not half the circle, if zero may lie between them. -/
def Near (s : UInt32) (n : Nat) : Prop := n + 1 < 2 ^ 31 ∨ n < 2 ^ 31 ∧ s.toNat + n < 2 ^ 32

/-- Short of a whole turn, a version is after exactly those that it is near to. -/
theorem isAfter_iterate_next_iff (h : s ≠ 0) (hpos : 0 < n) (hturn : n < 2 ^ 32 - 1) :
    isAfter (next^[n] s) s = true ↔ Near s n := by
  have hs := toNat_pos h
  have hlt := s.toNat_lt
  rw [isAfter_iff, or_iff_right h, toNat_iterate_next h]
  unfold Near
  by_cases hwrap : s.toNat - 1 + n < 2 ^ 32 - 1
  · rw [Nat.mod_eq_of_lt hwrap]
    omega
  · -- behind zero the distance is one more than the steps
    have hmod : (s.toNat - 1 + n) % (2 ^ 32 - 1) = s.toNat - 1 + n - (2 ^ 32 - 1) := by omega
    rw [hmod]
    omega

theorem isAfter_iterate_next (h : s ≠ 0) (hpos : 0 < n) (hn : Near s n) :
    isAfter (next^[n] s) s = true := by
  have hturn : n < 2 ^ 32 - 1 := by
    unfold Near at hn
    omega
  exact (isAfter_iterate_next_iff h hpos hturn).mpr hn

lemma Near.mono {m : Nat} (h : Near s n) (hm : m ≤ n) : Near s m := by
  unfold Near at h ⊢
  omega

lemma isAfter_asymm (hv : v ≠ 0) (hs : s ≠ 0) (h : isAfter v s = true) : isAfter s v = false := by
  have hvlt := v.toNat_lt
  have hslt := s.toNat_lt
  rw [isAfter_iff, or_iff_right hs] at h
  rw [← Bool.not_eq_true, isAfter_iff, or_iff_right hv]
  omega

lemma isAfter_self (hs : s ≠ 0) : isAfter s s = false := by
  rw [← Bool.not_eq_true]
  intro h
  rw [isAfter_asymm hs hs h] at h
  cases h

/-- Of two versions of one clock the later one is the one that took more steps. -/
theorem isAfter_iterate_next_iterate_next {i j : Nat} (h : s ≠ 0) (hi : i < j + (2 ^ 31 - 1))
    (hj : j < i + (2 ^ 31 - 1)) : isAfter (next^[i] s) (next^[j] s) = true ↔ j < i := by
  -- from the earlier version to the later one it is less than half around
  have hlater : ∀ {i j : Nat}, j < i → i < j + (2 ^ 31 - 1) →
      isAfter (next^[i] s) (next^[j] s) = true := by
    intro i j hlt hi
    have hnear : Near (next^[j] s) (i - j) := .inl (by omega)
    have hafter := isAfter_iterate_next (iterate_next_ne_zero h j) (by omega) hnear
    rwa [← Function.iterate_add_apply, Nat.sub_add_cancel hlt.le] at hafter
  rcases lt_trichotomy i j with hlt | rfl | hlt
  · have hafter := hlater hlt hj
    rw [isAfter_asymm (iterate_next_ne_zero h j) (iterate_next_ne_zero h i) hafter]
    exact iff_of_false Bool.false_ne_true hlt.not_gt
  · rw [isAfter_self (iterate_next_ne_zero h i)]
    exact iff_of_false Bool.false_ne_true (lt_irrefl i)
  · exact iff_of_true (hlater hlt hi) hlt

lemma version_iterate_bump (w : World) (n : Nat) :
    ((fun w => w.bump.2)^[n] w).version = next^[n] w.version := by
  induction n with
  | zero => rfl
  | succ n ih =>
    rw [Function.iterate_succ_apply', Function.iterate_succ_apply', ← ih]
    rfl

/-- Going up from any version by less than half around the circle, across zero or not, no version is
zero, each is after the first one and the first one is not after it. So of any two versions less
than that many steps apart, exactly the one that took more steps is after the other. The versions of
a store go up in these steps. -/
theorem later_versions_are_after (hs : s ≠ 0) :
    (∀ n, 1 ≤ n → n ≤ 2 ^ 31 - 2 → next^[n] s ≠ 0 ∧
      isAfter (next^[n] s) s = true ∧ isAfter s (next^[n] s) = false) ∧
    (∀ i j, i < j + (2 ^ 31 - 1) → j < i + (2 ^ 31 - 1) →
      (isAfter (next^[i] s) (next^[j] s) = true ↔ j < i)) ∧
    ∀ (w : World) (n : Nat), w.version = s → ((fun w => w.bump.2)^[n] w).version = next^[n] s := by
  refine ⟨fun n hpos hn => ?_, fun i j => isAfter_iterate_next_iterate_next hs, ?_⟩
  · have hne := iterate_next_ne_zero hs n
    have hafter := isAfter_iterate_next hs hpos (.inl (by omega))
    exact ⟨hne, hafter, isAfter_asymm hne hs hafter⟩
  · rintro w n rfl
    exact version_iterate_bump w n

/-- From the fifth to last version as far as it can be told: the clock has gone around. -/
theorem later_versions_are_after_wrapped :
    (0xFFFFFFFB : UInt32) ≠ 0 ∧ next^[2 ^ 31 - 2] 0xFFFFFFFB = 0x7FFFFFFA ∧
      isAfter 0x7FFFFFFA 0xFFFFFFFB = true ∧ isAfter 0xFFFFFFFB 0x7FFFFFFA = false ∧
      isAfter (next^[7] 0xFFFFFFFB) (next^[2] 0xFFFFFFFB) = true := by
  have hs : (0xFFFFFFFB : UInt32) ≠ 0 := by decide
  have hlast : next^[2 ^ 31 - 2] 0xFFFFFFFB = 0x7FFFFFFA := by
    rw [← UInt32.toNat_inj, toNat_iterate_next hs]
    rfl
  obtain ⟨hsteps, hpairs, -⟩ := later_versions_are_after hs
  obtain ⟨-, hafter, hbefore⟩ := hsteps (2 ^ 31 - 2) (by decide) le_rfl
  rw [hlast] at hafter hbefore
  exact ⟨hs, hlast, hafter, hbefore, (hpairs 7 2 (by decide) (by decide)).mpr (by decide)⟩

end EntityStore.Epoch
