import Mathlib
import EntityStore.Layout

/-!
# As many entities as fit share a chunk

The space that columns take grows with the number of their values, and padding only adds to it. So
no more values fit than the buffer has room for without padding, the count at which the search for
the capacity begins, and the first count that fits on the way down is the largest of all. Machine
words give out only where the space is far too large.
-/
namespace EntityStore.Layout

open Settings (alignUp wordLimit)

variable {sizes : List Nat} {buffer m n : Nat} {columns : List Registration} {l : Layout}

/-- The bytes that `count` values in each column take, however many. -/
def required (sizes : List Nat) (count : Nat) : Nat := total (sizes.map (paddedSize · count))

lemma le_paddedSize (size count : Nat) : size * count ≤ paddedSize size count :=
  Settings.le_alignUp _

@[simp] lemma total_nil : total [] = 0 := rfl

@[simp] lemma total_cons (size : Nat) (sizes : List Nat) :
    total (size :: sizes) = size + total sizes := rfl

@[simp] lemma required_nil (n : Nat) : required [] n = 0 := rfl

@[simp] lemma required_cons (size : Nat) (sizes : List Nat) (n : Nat) :
    required (size :: sizes) n = paddedSize size n + required sizes n := rfl

lemma required_zero (sizes : List Nat) : required sizes 0 = 0 := by
  induction sizes with
  | nil => rfl
  | cons size sizes ih => rw [required_cons, ih, paddedSize, Nat.mul_zero, Settings.alignUp]

lemma required_of_total (h : total sizes = 0) (n : Nat) : required sizes n = 0 := by
  induction sizes with
  | nil => rfl
  | cons size sizes ih =>
    obtain ⟨rfl, hrest⟩ := Nat.add_eq_zero_iff.mp h
    rw [required_cons, ih hrest, paddedSize, Nat.zero_mul, Settings.alignUp]

theorem required_mono (sizes : List Nat) (h : m ≤ n) : required sizes m ≤ required sizes n := by
  induction sizes with
  | nil => rfl
  | cons size sizes ih =>
    have hcolumn : paddedSize size m ≤ paddedSize size n :=
      Settings.alignUp_mono (Nat.mul_le_mul_left size h)
    exact Nat.add_le_add hcolumn ih

theorem total_mul_le_required (sizes : List Nat) (n : Nat) :
    total sizes * n ≤ required sizes n := by
  induction sizes with
  | nil => simp
  | cons size sizes ih =>
    rw [total_cons, required_cons, Nat.add_mul]
    exact Nat.add_le_add (le_paddedSize size n) ih

lemma required_le (sizes : List Nat) (n : Nat) :
    required sizes n ≤ total sizes * n + 63 * sizes.length := by
  induction sizes with
  | nil => simp
  | cons size sizes ih =>
    have hcolumn : paddedSize size n ≤ size * n + 63 := Nat.div_mul_le_self _ _
    rw [total_cons, required_cons, Nat.add_mul, List.length_cons]
    omega

lemma addSize_eq (n sum size : Nat) : addSize n sum size =
    if sum + paddedSize size n < wordLimit then some (sum + paddedSize size n) else none := by
  -- the limit is a multiple of the alignment, and is not passed by rounding up to one
  have hround : size * n + 63 < wordLimit ↔ paddedSize size n < wordLimit := by
    unfold paddedSize alignUp wordLimit UInt64.size
    omega
  by_cases hsize : paddedSize size n < wordLimit
  · simp [addSize, paddedSize?, hround, hsize]
  · have hsum : ¬ sum + paddedSize size n < wordLimit := by omega
    simp [addSize, paddedSize?, hround, hsize, hsum]

lemma foldlM_addSize (sizes : List Nat) (n : Nat) : ∀ sum < wordLimit,
    sizes.foldlM (addSize n) sum =
      if sum + required sizes n < wordLimit then some (sum + required sizes n) else none := by
  induction sizes with
  | nil =>
    intro sum hsum
    simp [hsum]
  | cons size sizes ih =>
    intro sum hsum
    rw [List.foldlM_cons, addSize_eq, required_cons, ← Nat.add_assoc]
    split_ifs with hnext htotal htotal
    · rw [Option.bind_eq_bind, Option.bind_some, ih _ hnext, if_pos htotal]
    · rw [Option.bind_eq_bind, Option.bind_some, ih _ hnext, if_neg htotal]
    · omega
    · rfl

/-- Words can be too short for the space that is required, and are never wrong about it. -/
theorem required?_eq (sizes : List Nat) (n : Nat) :
    required? sizes n = if required sizes n < wordLimit then some (required sizes n) else none := by
  rw [required?, foldlM_addSize sizes n 0 (by decide), Nat.zero_add]

lemma roomFor_iff : roomFor sizes buffer n = true ↔
    ∃ bytes, required? sizes n = some bytes ∧ bytes ≤ buffer := by
  simp [roomFor, Option.any_eq_true]

lemma roomFor_iff_required : roomFor sizes buffer n = true ↔
    required sizes n < wordLimit ∧ required sizes n ≤ buffer := by
  rw [roomFor_iff, required?_eq]
  split_ifs with hword <;> simp [hword]

lemma roomFor_of_le (hroom : roomFor sizes buffer n = true) (h : m ≤ n) :
    roomFor sizes buffer m = true := by
  have hle := required_mono sizes h
  rw [roomFor_iff_required] at hroom ⊢
  exact ⟨hle.trans_lt hroom.1, hle.trans hroom.2⟩

/-- The search downwards finds the largest count that fits. -/
theorem le_fit_iff : m ≤ fit sizes buffer n ↔ m ≤ n ∧ roomFor sizes buffer m = true := by
  induction n with
  | zero =>
    simp only [fit, Nat.le_zero]
    refine ⟨?_, And.left⟩
    rintro rfl
    refine ⟨rfl, roomFor_iff_required.mpr ?_⟩
    simp [required_zero, wordLimit]
  | succ n ih =>
    unfold fit
    split_ifs with hfits
    · exact ⟨fun hm => ⟨hm, roomFor_of_le hfits hm⟩, And.left⟩
    · rw [ih]
      -- the count just tried is too large, so nothing is lost by going on below it
      refine and_congr_left fun hm => ⟨Nat.le_succ_of_le, fun hle => ?_⟩
      refine Nat.lt_succ_iff.mp (lt_of_le_of_ne hle ?_)
      rintro rfl
      exact hfits hm

/-- The search begins high enough. -/
theorem le_fit_div_iff (htotal : 0 < total sizes) (buffer n : Nat) :
    n ≤ fit sizes buffer (buffer / total sizes) ↔ roomFor sizes buffer n = true := by
  rw [le_fit_iff, and_iff_right_of_imp]
  intro hn
  rw [Nat.le_div_iff_mul_le htotal, Nat.mul_comm]
  exact (total_mul_le_required sizes n).trans (roomFor_iff_required.mp hn).2

theorem new_spec : Layout.new columns buffer = .ok l ↔
    l.columns = columns ∧ 2 ≤ l.capacity ∧
      ∀ n, n ≤ l.capacity ↔ roomFor (columns.map fun c => c.kind.size) buffer n = true := by
  rcases Nat.eq_zero_or_pos (total (columns.map fun c => c.kind.size)) with hzero | htotal
  · -- any number of values without bytes has room, so that none is the largest
    refine iff_of_false (by simp [Layout.new, hzero]) fun ⟨_, _, hall⟩ => ?_
    have hmore := (hall (l.capacity + 1)).mpr (roomFor_iff_required.mpr (by
      simp [required_of_total hzero, wordLimit]))
    omega
  · have hfit := le_fit_div_iff htotal buffer
    simp only [Layout.new, htotal.ne', if_false]
    generalize fit _ buffer _ = capacity at hfit ⊢
    simp only [← hfit]
    split_ifs with hcap
    · refine iff_of_false nofun fun ⟨_, htwo, hall⟩ => ?_
      have hmost := (hall _).mp le_rfl
      omega
    · rw [Except.ok.injEq]
      constructor
      · rintro rfl
        exact ⟨rfl, Nat.le_of_not_lt hcap, fun n => Iff.rfl⟩
      · rintro ⟨rfl, -, hall⟩
        have hsame : l.capacity = capacity :=
          le_antisymm ((hall _).mp le_rfl) ((hall _).mpr le_rfl)
        rw [← hsame]

lemma new_eq_ok (h : Layout.new columns buffer = .ok l) :
    l.columns = columns ∧ 2 ≤ l.capacity := by
  obtain ⟨hcolumns, hcap, -⟩ := new_spec.mp h
  exact ⟨hcolumns, hcap⟩

lemma new_eq_error {f : Fault} (h : Layout.new columns buffer = .error f) :
    f = .capacityExceeded .chunkBytes buffer := by
  unfold Layout.new at h
  extract_lets at h
  split_ifs at h
  exact (Except.error.inj h).symm

lemma sizes_of_new (h : Layout.new columns buffer = .ok l) :
    l.sizes = columns.map fun c => c.kind.size := by
  rw [Layout.sizes, kinds, (new_eq_ok h).1, List.map_map]
  rfl

lemma required_le_of_new (h : Layout.new columns buffer = .ok l) :
    required l.sizes l.capacity ≤ buffer := by
  obtain ⟨-, -, hall⟩ := new_spec.mp h
  rw [sizes_of_new h]
  exact (roomFor_iff_required.mp ((hall _).mp le_rfl)).2

/-- The counts that are tried all need fewer bytes than there are words, as long as the buffer with
another block for each column has. -/
lemma isSome_required? (hbuffer : buffer + 64 * sizes.length ≤ wordLimit) (hsizes : sizes ≠ [])
    (hn : n ≤ buffer / total sizes) : (required? sizes n).isSome = true := by
  have hpos := List.length_pos_iff.mpr hsizes
  have hle := required_le sizes n
  have htotal : total sizes * n ≤ buffer :=
    (Nat.mul_le_mul_left _ hn).trans (Nat.mul_div_le buffer _)
  rw [required?_eq, if_pos (by omega)]
  rfl

/-- For all components behind the handle column and every size of the buffer: there is a layout if
and only if two entities fit, and its capacity is the largest number of entities that do. Sizes that
are too large for a machine word fit in no buffer, and none comes up as long as the buffer leaves
room for the padding below the limit of words. -/
theorem capacity_is_largest (handleName : String) (components : List Registration) (buffer : Nat) :
    let columns := ⟨.entity, .handle handleName⟩ :: components
    let sizes := columns.map fun c => c.kind.size
    ((∃ l, Layout.new columns buffer = .ok l) ↔
      ∃ bytes, required? sizes 2 = some bytes ∧ bytes ≤ buffer) ∧
    (∀ f, Layout.new columns buffer = .error f → f = .capacityExceeded .chunkBytes buffer) ∧
    (∀ l, Layout.new columns buffer = .ok l → l.sizes = sizes ∧
      IsGreatest {n | ∃ bytes, required? sizes n = some bytes ∧ bytes ≤ buffer} l.capacity ∧
      (∀ n ≤ l.capacity, ∃ bytes, required? sizes n = some bytes ∧ bytes ≤ buffer) ∧
      ∀ n bytes, l.capacity < n → required? sizes n = some bytes → buffer < bytes) ∧
    (buffer + 64 * columns.length ≤ wordLimit →
      ∀ n ≤ buffer / total sizes, (required? sizes n).isSome = true) := by
  intro columns sizes
  simp only [← roomFor_iff]
  have htotal : 0 < total sizes := Nat.add_pos_left (by decide : 0 < 8) _
  refine ⟨⟨?_, fun htwo => ?_⟩, fun f hf => new_eq_error hf, fun l hl => ?_, fun hbuffer n hn => ?_⟩
  · rintro ⟨l, hl⟩
    obtain ⟨-, hcap, hall⟩ := new_spec.mp hl
    exact (hall 2).mp hcap
  · refine ⟨⟨columns, fit sizes buffer (buffer / total sizes)⟩, new_spec.mpr ?_⟩
    exact ⟨rfl, (le_fit_div_iff htotal buffer 2).mpr htwo, le_fit_div_iff htotal buffer⟩
  · obtain ⟨-, -, hall⟩ := new_spec.mp hl
    refine ⟨sizes_of_new hl, ⟨(hall _).mp le_rfl, fun n hn => (hall n).mpr hn⟩,
      fun n => (hall n).mp, fun n bytes hn hbytes => ?_⟩
    rw [← not_le] at hn ⊢
    exact fun hfits => hn ((hall n).mpr (roomFor_iff.mpr ⟨bytes, hbytes, hfits⟩))
  · exact isSome_required? (by simpa [sizes] using hbuffer) (by simp [sizes, columns]) hn

/-- Without padding there would be room for 14 entities. The eight that fit leave no byte over. No
word can hold what `2 ^ 61` entities would take. -/
theorem capacity_is_largest_padded :
    let columns : List Registration := [⟨.entity, .handle "Handle"⟩,
      ⟨⟨1⟩, { name := "Flag", size := 1, align := 1, initial := .bytes [0] }⟩,
      ⟨⟨2⟩, { name := "Number", size := 4, align := 4, initial := .bytes [0, 0, 0, 0] }⟩]
    192 / total [8, 1, 4] = 14 ∧ Layout.new columns 192 = .ok ⟨columns, 8⟩ ∧
      required? [8, 1, 4] 8 = some 192 ∧ required? [8, 1, 4] 9 = some 256 ∧ 192 < 256 ∧
      required? [8, 1, 4] (2 ^ 61) = none := by
  intro columns
  have hl : Layout.new columns 192 = .ok ⟨columns, 8⟩ := by decide +kernel
  obtain ⟨-, -, hspec, -⟩ := capacity_is_largest "Handle" columns.tail 192
  obtain ⟨-, -, -, habove⟩ := hspec _ hl
  exact ⟨by decide, hl, by decide, by decide, habove 9 256 (by decide) (by decide), by decide⟩

end EntityStore.Layout
