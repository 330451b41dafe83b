import Mathlib
import EntityStore.Proofs.RowAccesses

/-!
# Values of a chunk have bytes of their own

The range of a value and that of the first values of a column are found from where the column
begins. Taken in order, column by column and in a column position by position, each value ends
before the next one begins, the last of them within the buffer. Each is aligned as its kind asks.
-/
namespace EntityStore.Layout

variable {l : Layout} {columns : List Registration} {buffer i i' j j' len size : Nat}
  {r r' : Nat × Nat}

/-- The numbers of the bytes of a range. -/
def bytes (r : Nat × Nat) : List Nat := List.range' r.1 (r.2 - r.1)

lemma mem_bytes {b : Nat} : b ∈ bytes r ↔ r.1 ≤ b ∧ b < r.2 := by
  rw [bytes, List.mem_range'_1]
  omega

lemma disjoint_bytes (h : r.2 ≤ r'.1) : (bytes r).Disjoint (bytes r') := by
  intro b hb hb'
  rw [mem_bytes] at hb hb'
  omega

lemma lt_length_iff : j < l.columns.length ↔ ∃ size, l.sizes[j]? = some size := by
  rw [← Option.isSome_iff_exists, isSome_getElem?, sizes, kinds, List.length_map, List.length_map]

lemma offsets_eq_none (hj : l.columns.length ≤ j) : l.offsets[j]? = none := by
  simpa [offsets, sizes, kinds] using hj

theorem cellRange_eq_ok : l.cellRange j i = .ok r ↔ ∃ size, l.sizes[j]? = some size ∧
    i < l.capacity ∧ r = (l.start j + size * i, l.start j + size * i + size) := by
  by_cases hj : j < l.columns.length
  · obtain ⟨size, hsize⟩ := lt_length_iff.mp hj
    by_cases hi : i < l.capacity
    · simp [cellRange_eq hsize hi, hsize, hi, eq_comm]
    · simp [cellRange, offsets_eq hsize, hsize, hi, not_lt.mp hi]
  · have hnone : ∀ size, l.sizes[j]? ≠ some size := fun size h => hj (lt_length_iff.mpr ⟨size, h⟩)
    simp [cellRange, offsets_eq_none (not_lt.mp hj), hnone]

theorem columnRange_eq_ok : l.columnRange j len = .ok r ↔ ∃ size, l.sizes[j]? = some size ∧
    len ≤ l.capacity ∧ r = (l.start j, l.start j + size * len) := by
  by_cases hj : j < l.columns.length
  · obtain ⟨size, hsize⟩ := lt_length_iff.mp hj
    by_cases hlen : len ≤ l.capacity
    · simp [columnRange_eq hsize hlen, hsize, hlen, eq_comm]
    · simp [columnRange, offsets_eq hsize, hsize, hlen, not_le.mp hlen]
  · have hnone : ∀ size, l.sizes[j]? ≠ some size := fun size h => hj (lt_length_iff.mpr ⟨size, h⟩)
    simp [columnRange, offsets_eq_none (not_lt.mp hj), hnone]

lemma error_iff {α : Type} {x : Except Fault α} {p : Prop} (h : (∃ a, x = .ok a) ↔ p) :
    (∃ f, x = .error f) ↔ ¬p := by
  rw [← h]
  cases x <;> simp

/-- Only a column that is not there or a place behind the capacity is refused. -/
theorem cellRange_error_iff :
    (∃ f, l.cellRange j i = .error f) ↔ l.columns.length ≤ j ∨ l.capacity ≤ i := by
  have hok : (∃ r, l.cellRange j i = .ok r) ↔ j < l.columns.length ∧ i < l.capacity := by
    simp only [cellRange_eq_ok, lt_length_iff]
    tauto
  rw [error_iff hok, not_and_or, not_lt, not_lt]

theorem columnRange_error_iff :
    (∃ f, l.columnRange j len = .error f) ↔ l.columns.length ≤ j ∨ l.capacity < len := by
  have hok : (∃ r, l.columnRange j len = .ok r) ↔ j < l.columns.length ∧ len ≤ l.capacity := by
    simp only [columnRange_eq_ok, lt_length_iff]
    tauto
  rw [error_iff hok, not_and_or, not_lt, not_le]

lemma place_le (size : Nat) (hi : i < i') : size * i + size ≤ size * i' := by
  rw [← Nat.mul_succ]
  exact Nat.mul_le_mul_left size hi

/-- Values end before those of later columns, and those behind them in their own, begin. -/
lemma cellRange_le (hr : l.cellRange j i = .ok r) (hr' : l.cellRange j' i' = .ok r')
    (hlt : j < j' ∨ j = j' ∧ i < i') : r.2 ≤ r'.1 := by
  obtain ⟨size, hsize, hi, rfl⟩ := cellRange_eq_ok.mp hr
  obtain ⟨size', hsize', -, rfl⟩ := cellRange_eq_ok.mp hr'
  rcases hlt with hj | ⟨rfl, hlt⟩
  · have hcolumn := start_add_le hsize hj
    have hplace := place_le size hi
    simp only
    omega
  · obtain rfl : size = size' := Option.some.inj (hsize.symm.trans hsize')
    have hplace := place_le size hlt
    simp only
    omega

theorem disjoint_cellRange (hr : l.cellRange j i = .ok r) (hr' : l.cellRange j' i' = .ok r')
    (hne : (j, i) ≠ (j', i')) : (bytes r).Disjoint (bytes r') := by
  rcases lt_trichotomy j j' with hj | rfl | hj
  · exact disjoint_bytes (cellRange_le hr hr' (.inl hj))
  · have hi : i ≠ i' := by
      rintro rfl
      exact hne rfl
    rcases lt_or_gt_of_ne hi with hi | hi
    · exact disjoint_bytes (cellRange_le hr hr' (.inr ⟨rfl, hi⟩))
    · exact (disjoint_bytes (cellRange_le hr' hr (.inr ⟨rfl, hi⟩))).symm
  · exact (disjoint_bytes (cellRange_le hr' hr (.inl hj))).symm

theorem disjoint_columnRange {len' : Nat} (hr : l.columnRange j len = .ok r)
    (hr' : l.columnRange j' len' = .ok r') (hne : j ≠ j') : (bytes r).Disjoint (bytes r') := by
  obtain ⟨size, hsize, hlen, rfl⟩ := columnRange_eq_ok.mp hr
  obtain ⟨size', hsize', hlen', rfl⟩ := columnRange_eq_ok.mp hr'
  have hfull : size * len ≤ size * l.capacity := Nat.mul_le_mul_left size hlen
  have hfull' : size' * len' ≤ size' * l.capacity := Nat.mul_le_mul_left size' hlen'
  rcases lt_or_gt_of_ne hne with hj | hj
  · have hcolumn := start_add_le hsize hj
    exact disjoint_bytes (by simp only; omega)
  · have hcolumn := start_add_le hsize' hj
    exact (disjoint_bytes (by simp only; omega)).symm

lemma bytes_flatMap (first size len : Nat) :
    ((List.range len).map fun i => (first + size * i, first + size * i + size)).flatMap bytes =
      bytes (first, first + size * len) := by
  induction len with
  | zero => simp [bytes]
  | succ len ih =>
    rw [List.range_succ, List.map_append, List.flatMap_append, ih]
    simp only [List.map_singleton, List.flatMap_singleton, bytes, Nat.add_sub_cancel_left,
      Nat.mul_succ]
    rw [List.range'_append_1]

theorem columnRange_eq_cells (hr : l.columnRange j len = .ok r) :
    ∃ rs : List (Nat × Nat), (List.range len).map (l.cellRange j) = rs.map .ok ∧
      bytes r = rs.flatMap bytes := by
  obtain ⟨size, hsize, hlen, rfl⟩ := columnRange_eq_ok.mp hr
  refine ⟨_, ?_, (bytes_flatMap (l.start j) size len).symm⟩
  rw [List.map_map]
  refine List.map_congr_left fun i hi => ?_
  exact cellRange_eq hsize ((List.mem_range.mp hi).trans_le hlen)

/-- Lawful kinds that columns can align have their columns aligned, in the space that there is. -/
lemma fits_of_new (hl : Layout.new columns buffer = .ok l)
    (ha : ∀ c ∈ columns, c.kind.align ≤ columnAlign) : l.Fits buffer where
  required := required_le_of_new hl
  aligned k hk := by
    rw [kinds, (new_eq_ok hl).1] at hk
    obtain ⟨c, hc, rfl⟩ := List.mem_map.mp hk
    exact ha c hc

lemma Fits.cell (h : l.Fits buffer) {c : Registration} (hc : l.columns[j]? = some c)
    (hlawful : c.kind.Lawful) (hi : i < l.capacity) :
    ∃ first, l.cellRange j i = .ok (first, first + c.kind.size) ∧
      first + c.kind.size ≤ buffer ∧ c.kind.align ∣ first := by
  have hk : l.kinds[j]? = some c.kind := by simp [kinds, hc]
  have hsize := sizes_of_kinds hk
  refine ⟨_, cellRange_eq hsize hi, ?_, ?_⟩
  · have hplace := place_le c.kind.size hi
    have hspace := start_add_le_required hsize
    have hroom := h.required
    omega
  · have hcolumn := hlawful.dvd_columnAlign (h.aligned _ (List.mem_of_getElem? hk))
    exact Nat.dvd_add (hcolumn.trans (l.columnAlign_dvd_start j)) (hlawful.2.mul_right i)

/-- In every layout that is made for lawful kinds: each column begins at a multiple of the column
alignment; each value of a column has as many bytes as its kind says, within the buffer, and begins
where its kind may; different values share no byte; the range of the first values of a column is
that of one after the other; a range is refused if and only if the column or the place is not
there. -/
theorem columns_are_apart (hl : Layout.new columns buffer = .ok l)
    (hlawful : ∀ c ∈ columns, c.kind.Lawful ∧ c.kind.align ≤ columnAlign) :
    (l.offsets.length = columns.length ∧ ∀ offset ∈ l.offsets, 64 ∣ offset) ∧
    (∀ j i c, columns[j]? = some c → i < l.capacity →
      ∃ first, l.cellRange j i = .ok (first, first + c.kind.size) ∧
        first + c.kind.size ≤ buffer ∧ c.kind.align ∣ first) ∧
    (∀ j i j' i' r r', l.cellRange j i = .ok r → l.cellRange j' i' = .ok r' →
      (j, i) ≠ (j', i') → (bytes r).Disjoint (bytes r')) ∧
    (∀ j len r, l.columnRange j len = .ok r →
      ∃ rs : List (Nat × Nat), (List.range len).map (l.cellRange j) = rs.map .ok ∧
        bytes r = rs.flatMap bytes) ∧
    (∀ j i, (∃ f, l.cellRange j i = .error f) ↔ columns.length ≤ j ∨ l.capacity ≤ i) ∧
    ∀ j len, (∃ f, l.columnRange j len = .error f) ↔ columns.length ≤ j ∨ l.capacity < len := by
  have hfits := fits_of_new hl fun c hc => (hlawful c hc).2
  obtain rfl := (new_eq_ok hl).1
  refine ⟨⟨by simp [offsets, sizes, kinds], fun offset ho => ?_⟩, fun j i c hc hi => ?_,
    fun j i j' i' r r' hr hr' hne => disjoint_cellRange hr hr' hne,
    fun j len r hr => columnRange_eq_cells hr, fun j i => cellRange_error_iff,
    fun j len => columnRange_error_iff⟩
  · obtain ⟨j, hj⟩ := List.mem_iff_getElem?.mp ho
    have hlt : j < l.columns.length := by
      simpa [offsets, sizes, kinds] using (List.getElem?_eq_some_iff.mp hj).1
    obtain ⟨size, hsize⟩ := lt_length_iff.mp hlt
    rw [offsets_eq hsize] at hj
    rw [← Option.some.inj hj]
    exact l.columnAlign_dvd_start j
  · exact hfits.cell hc (hlawful c (List.mem_of_getElem? hc)).1 hi

/-- The columns fill the buffer to the last byte; behind them comes one of values without bytes. -/
theorem columns_are_apart_filled :
    let columns : List Registration := [⟨.entity, .handle "Handle"⟩,
      ⟨⟨1⟩, { name := "Colour", size := 3, align := 1, initial := .bytes [0, 0, 0] }⟩,
      ⟨⟨2⟩, { name := "Time", size := 8, align := 8, initial := .bytes (List.replicate 8 0) }⟩,
      ⟨⟨2 ^ 31 + 3⟩, { name := "Mark", size := 0, align := 1, initial := .bytes [] }⟩]
    Layout.new columns 192 = .ok ⟨columns, 8⟩ ∧
      (∀ c ∈ columns, c.kind.Lawful ∧ c.kind.align ≤ columnAlign) ∧
      (∃ first, cellRange ⟨columns, 8⟩ 2 7 = .ok (first, first + 8) ∧ first + 8 ≤ 192 ∧ 8 ∣ first) ∧
      (bytes (85, 88)).Disjoint (bytes (184, 192)) := by
  intro columns
  have hl : Layout.new columns 192 = .ok ⟨columns, 8⟩ := by decide +kernel
  have hlawful : ∀ c ∈ columns, c.kind.Lawful ∧ c.kind.align ≤ columnAlign := by decide
  obtain ⟨-, hcell, hdisjoint, -⟩ := columns_are_apart hl hlawful
  refine ⟨hl, hlawful, hcell 2 7 _ rfl (by decide), ?_⟩
  exact hdisjoint 1 7 2 7 (85, 88) (184, 192) (by decide) (by decide) (by decide)

end EntityStore.Layout
