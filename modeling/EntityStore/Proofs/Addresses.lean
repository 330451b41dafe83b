import Mathlib
import EntityStore.Proofs.Draft
import EntityStore.Proofs.Tracking

/-!
# Where values stand in a chunk

The columns of a layout are blocks one after the other, none of which reaches into another or out of
the buffer. `View.image` lays the rows of a chunk out in this way. The two ways to address it, a
whole column at a time and one value at a time, read the same bytes.
-/
namespace EntityStore

section Pieces
variable {α : Type} {xss : List (List α)} {xs : List α} {j m n : Nat}

end Pieces

namespace Layout
variable {l : Layout} {i j p len size : Nat} {k : Kind}

def start (l : Layout) (j : Nat) : Nat := ((l.sizes.take j).map (paddedSize · l.capacity)).sum

lemma sizes_of_kinds (hk : l.kinds[j]? = some k) : l.sizes[j]? = some k.size := by
  simp [sizes, hk]

lemma getElem?_offsetsFrom (capacity first : Nat) {sizes : List Nat} (hj : j < sizes.length) :
    (offsetsFrom capacity first sizes)[j]? =
      some (first + ((sizes.take j).map (paddedSize · capacity)).sum) := by
  induction sizes generalizing first j with
  | nil => simp at hj
  | cons s sizes ih =>
    cases j with
    | zero => simp [offsetsFrom]
    | succ j =>
      simp only [offsetsFrom, List.getElem?_cons_succ, List.take_succ_cons, List.map_cons,
        List.sum_cons]
      rw [ih _ (by simpa using hj), Nat.add_assoc]

lemma offsets_eq (hj : l.sizes[j]? = some size) : l.offsets[j]? = some (l.start j) := by
  rw [offsets, getElem?_offsetsFrom _ _ (List.getElem?_eq_some_iff.mp hj).1, Nat.zero_add, start]

lemma columnRange_eq (hj : l.sizes[j]? = some size) (hlen : len ≤ l.capacity) :
    l.columnRange j len = .ok (l.start j, l.start j + size * len) := by
  simp only [columnRange, offsets_eq hj, hj, if_neg (Nat.not_lt.mpr hlen)]

lemma cellRange_eq (hj : l.sizes[j]? = some size) (hp : p < l.capacity) :
    l.cellRange j p = .ok (l.start j + size * p, l.start j + size * p + size) := by
  simp only [cellRange, offsets_eq hj, hj, if_neg (Nat.not_le.mpr hp)]

lemma start_succ (hj : l.sizes[j]? = some size) :
    l.start (j + 1) = l.start j + paddedSize size l.capacity := by
  obtain ⟨hlt, rfl⟩ := List.getElem?_eq_some_iff.mp hj
  rw [start, List.take_succ_eq_append_getElem hlt, List.map_append, List.sum_append, start]
  simp

lemma start_mono (hij : i ≤ j) : l.start i ≤ l.start j := by
  obtain ⟨rest, hrest⟩ := List.take_prefix_take_left (l := l.sizes) hij
  rw [start, start, ← hrest, List.map_append, List.sum_append]
  exact Nat.le_add_right _ _

/-- A column ends before the next one begins. -/
theorem start_add_le (hi : l.sizes[i]? = some size) (hij : i < j) :
    l.start i + size * l.capacity ≤ l.start j := by
  have hnext := start_succ hi
  have hlater : l.start (i + 1) ≤ l.start j := start_mono hij
  have hpad := le_paddedSize size l.capacity
  omega

lemma required_eq (l : Layout) : required l.sizes l.capacity = l.start l.sizes.length := by
  rw [required, start, List.take_length]
  rfl

/-- No column reaches out of the space that is required. -/
theorem start_add_le_required (hj : l.sizes[j]? = some size) :
    l.start j + size * l.capacity ≤ required l.sizes l.capacity := by
  rw [required_eq]
  exact start_add_le hj (List.getElem?_eq_some_iff.mp hj).1

end Layout

lemma Archetype.Drafted.required_le {r : Registry} {s : Settings} {id : Nat} {a : Archetype}
    (h : a.Drafted r s id) : Layout.required a.layout.sizes a.layout.capacity ≤ s.bufferSize := by
  obtain ⟨columns, -, hn⟩ := h
  obtain ⟨_, _, -, -, -, -, hl, -⟩ := Archetype.new_spec hn
  exact Layout.required_le_of_new (l := a.layout) hl

/-- The bytes of the place of a value. Those that are not held in place are not told. -/
def Value.place (size : Nat) (v : Value) : List (Option UInt8) :=
  (List.range size).map fun b => v.data[b]?

namespace View
variable {v : View} {j p size : Nat} {x : Value}

/-- The bytes of the values of a column. -/
def block (v : View) (j size : Nat) : List (Option UInt8) :=
  (v.chunk.column j).flatMap (Value.place size)

/-- The same with what is left of the space of the column. -/
def padded (v : View) (j size : Nat) : List (Option UInt8) :=
  v.block j size ++
    List.replicate (Layout.paddedSize size v.layout.capacity - size * v.length) none

/-- Columns with a value for each row, and no more rows than there is room for. -/
structure Fits (v : View) : Prop where
  shaped : v.chunk.Shaped v.layout.columns.length
  room : v.length ≤ v.layout.capacity

end View

end EntityStore
