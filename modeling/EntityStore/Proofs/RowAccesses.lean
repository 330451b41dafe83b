import Mathlib
import EntityStore.Proofs.Accesses
import EntityStore.Proofs.Addresses

/-!
# What the rows of an archetype touch

A value is reached through the tables of its layout, the chunk that holds it and the bytes of its
column there. In a packed archetype whose columns fit into a chunk that is safe for every row, for a
place that has only been reserved too, and so is taking rows out.
-/
namespace EntityStore

open Access

lemma Kind.Lawful.dvd_columnAlign {k : Kind} (h : k.Lawful) (hk : k.align ≤ columnAlign) :
    k.align ∣ columnAlign := by
  obtain ⟨hpower, -⟩ := h
  have hlog : k.align.log2 ≤ 6 := by
    rw [← hpower] at hk
    exact (Nat.pow_le_pow_iff_right (by decide : 1 < 2)).mp (hk.trans_eq (by decide : 64 = 2 ^ 6))
  rw [← hpower, show columnAlign = 2 ^ 6 by decide]
  exact Nat.pow_dvd_pow 2 hlog

namespace Layout
variable {l : Layout} {room j p len m n : Nat} {k : Kind}

/-- The tables of the layout are looked up at the column, and then the bytes of so many values are
reached for in a chunk, which has `room` for them behind its header. -/
def bytesAccesses (l : Layout) (room j count : Nat) (bytes : Except Fault (Nat × Nat)) :
    List Access :=
  [item j l.columns.length, item j l.offsets.length, item j l.sizes.length] ++
    match bytes, l.kinds[j]? with
    | .ok (start, stop), some k =>
        [range start stop room,
          values k count (Settings.headerSize + start) (Settings.headerSize + stop)]
    | _, _ => []

def cellAccesses (l : Layout) (room j p : Nat) : List Access :=
  item p l.capacity :: l.bytesAccesses room j 1 (l.cellRange j p)

def columnAccesses (l : Layout) (room j len : Nat) : List Access :=
  range 0 len l.capacity :: l.bytesAccesses room j len (l.columnRange j len)

/-- The columns have space in `room` bytes, and none is too strict for its alignment. -/
structure Fits (l : Layout) (room : Nat) : Prop where
  required : required l.sizes l.capacity ≤ room
  aligned : ∀ k ∈ l.kinds, k.align ≤ columnAlign

lemma columnAlign_dvd_start (l : Layout) (j : Nat) : columnAlign ∣ l.start j := by
  refine List.dvd_sum fun n hn => ?_
  obtain ⟨size, -, rfl⟩ := List.mem_map.mp hn
  exact Nat.dvd_of_mod_eq_zero (Settings.alignUp_mod _)

lemma exists_kind (hj : j < l.columns.length) : ∃ k, l.kinds[j]? = some k :=
  ⟨_, List.getElem?_eq_getElem (by simpa [kinds] using hj)⟩

lemma Fits.safe_bytes (h : l.Fits room) (hk : l.kinds[j]? = some k) (hle : p + n ≤ l.capacity) :
    Safe (l.bytesAccesses room j n
      (.ok (l.start j + k.size * p, l.start j + k.size * p + k.size * n))) := by
  have hj : j < l.columns.length := by simpa [kinds] using (List.getElem?_eq_some_iff.mp hk).1
  have hblock : k.size * p + k.size * n ≤ k.size * l.capacity := by
    rw [← Nat.mul_add]
    exact Nat.mul_le_mul_left _ hle
  have hspace := start_add_le_required (sizes_of_kinds hk)
  have hroom := h.required
  simp only [bytesAccesses, hk, safe_append, safe_cons, within_item, within_range, within_values,
    safe_nil, and_true]
  refine ⟨by simpa [offsets, sizes, kinds] using hj, ⟨by omega, by omega⟩, by omega,
    fun hlawful => ?_⟩
  have hcolumn := hlawful.dvd_columnAlign (h.aligned k (List.mem_of_getElem? hk))
  have hvalue : k.align ∣ k.size * p := hlawful.2.mul_right p
  exact Nat.dvd_add hcolumn (Nat.dvd_add (hcolumn.trans (l.columnAlign_dvd_start j)) hvalue)

lemma Fits.safe_cell (h : l.Fits room) (hj : j < l.columns.length) (hp : p < l.capacity) :
    Safe (l.cellAccesses room j p) := by
  obtain ⟨k, hk⟩ := exists_kind hj
  have hbytes := h.safe_bytes (n := 1) hk hp
  rw [Nat.mul_one] at hbytes
  rw [cellAccesses, cellRange_eq (sizes_of_kinds hk) hp]
  exact safe_cons.mpr ⟨hp, hbytes⟩

lemma Fits.safe_column (h : l.Fits room) (hj : j < l.columns.length) (hlen : len ≤ l.capacity) :
    Safe (l.columnAccesses room j len) := by
  obtain ⟨k, hk⟩ := exists_kind hj
  have hbytes := h.safe_bytes (p := 0) (n := len) hk (by rwa [Nat.zero_add])
  rw [Nat.mul_zero, Nat.add_zero] at hbytes
  rw [columnAccesses, columnRange_eq (sizes_of_kinds hk) hlen]
  exact safe_cons.mpr ⟨⟨Nat.zero_le _, hlen⟩, hbytes⟩

end Layout

namespace View
variable {v : View} {room : Nat}

/-- A column of a chunk, with its stamp and the two marks that tell whether it is shared or
claimed. -/
def columnAccesses (v : View) (room j : Nat) : List Access :=
  [item j v.chunk.stamps.length, item (2 * j) (2 * v.layout.columns.length),
    item (2 * j + 1) (2 * v.layout.columns.length)] ++ v.layout.columnAccesses room j v.length

def accesses (v : View) (room : Nat) : List Access :=
  (List.range v.layout.columns.length).flatMap (v.columnAccesses room)

lemma Fits.safe_accesses (h : v.Fits) (hl : v.layout.Fits room) : Safe (v.accesses room) := by
  refine safe_flatMap.mpr fun j hj => ?_
  have hlt := List.mem_range.mp hj
  refine safe_append.mpr ⟨?_, hl.safe_column hlt h.room⟩
  simp only [safe_cons, within_item, safe_nil, and_true, h.shaped.stamps]
  omega

end View

namespace Archetype
variable {a b : Archetype} {p q : Pool} {v : UInt32} {room i j n : Nat}

def cellAccesses (a : Archetype) (room j i : Nat) : List Access :=
  [item i a.count, divide a.capacity, item (i / a.capacity) a.chunks.length,
    item j ((a.chunks[i / a.capacity]?).elim 0 fun c => c.stamps.length)] ++
    a.layout.cellAccesses room j (i % a.capacity)

def rowAccesses (a : Archetype) (room i : Nat) : List Access :=
  (List.range a.layout.columns.length).flatMap fun j => a.cellAccesses room j i

/-- A row is found in a chunk of the list. -/
theorem row_congr (hcols : a.layout.columns ≠ []) (hlayout : b.layout = a.layout)
    (hcount : b.count = a.count) (hlength : b.chunks.length = a.chunks.length)
    (h : ∀ k n, item k n ∈ a.rowAccesses room i → b.chunks[k]? = a.chunks[k]?) :
    b.row i = a.row i := by
  have hzero : 0 ∈ List.range a.layout.columns.length :=
    List.mem_range.mpr (List.length_pos_iff.mpr hcols)
  have hchunk : b.chunks[i / a.capacity]? = a.chunks[i / a.capacity]? :=
    h _ a.chunks.length (List.mem_flatMap.mpr ⟨0, hzero, by simp [cellAccesses]⟩)
  have hlocate : b.locate i = a.locate i := by
    rw [locate, locate, hcount, capacity, capacity, hlayout]
  unfold row
  rw [hlocate, hlength]
  unfold locate
  split_ifs
  · dsimp only
    rw [hchunk]
  · rfl

/-- The last row goes, and its chunk with it if it was the only one there. -/
def truncateAccesses (a : Archetype) (p : Pool) : List Access :=
  lower a.count 1 ::
    match a.chunks.getLast? with
    | none => []
    | some c => lower c.rows.length 1 :: if c.rows.length = 1 then p.giveAccesses else []

/-- A row is taken out: the last row is copied over it, perhaps from another chunk, and the handle
that stands there then is read. -/
def removeAccesses (a : Archetype) (room i : Nat) (p : Pool) : List Access :=
  lower a.count 1 ::
    (if i = a.count - 1 then [item i a.count, divide a.capacity]
    else
      a.rowAccesses room (a.count - 1) ++ a.rowAccesses room i ++
        if (a.count - 1) / a.capacity = i / a.capacity then []
        else pair ((a.count - 1) / a.capacity) (i / a.capacity) a.chunks.length) ++
    a.truncateAccesses p

/-- The archetype with a row in the place that has been reserved; its values do not matter. -/
def opened (a : Archetype) (version : UInt32) : Archetype :=
  a.commit ⟨.null, a.layout.kinds.tail.map fun k => k.default 0⟩ version

def dropAccesses (a : Archetype) (room : Nat) : List Access :=
  a.chunks.flatMap fun c => (List.range c.rows.length).flatMap fun p =>
    (List.range a.layout.columns.length).flatMap fun j => a.layout.cellAccesses room j p

lemma Packed.chunk_of_lt (h : a.Packed) (hi : i < a.count) :
    ∃ c, a.chunks[i / a.capacity]? = some c ∧ c.stamps.length = a.layout.columns.length := by
  rw [h.counted] at hi
  have hrow := getElem?_rows h i
  rw [List.getElem?_eq_getElem hi, eq_comm, Option.bind_eq_some_iff] at hrow
  obtain ⟨c, hc, -⟩ := hrow
  exact ⟨c, hc, (h.shaped c (List.mem_of_getElem? hc)).stamps⟩

section Packed
variable (h : a.Packed) (hl : a.layout.Fits room)
include h hl

lemma Packed.safe_cell (hi : i < a.count) (hj : j < a.layout.columns.length) :
    Safe (a.cellAccesses room j i) := by
  obtain ⟨c, hc, hstamps⟩ := h.chunk_of_lt hi
  have hcap := h.roomy
  have hcell : Safe (a.layout.cellAccesses room j (i % a.capacity)) :=
    hl.safe_cell hj (Nat.mod_lt _ (Nat.zero_lt_of_lt hcap))
  simp only [cellAccesses, hc, Option.elim_some, hstamps, safe_append, safe_cons, within_item,
    within_divide, safe_nil, and_true]
  exact ⟨⟨hi, Nat.ne_zero_of_lt hcap, (List.getElem?_eq_some_iff.mp hc).1, hj⟩, hcell⟩

lemma Packed.safe_row (hi : i < a.count) : Safe (a.rowAccesses room i) :=
  safe_flatMap.mpr fun _ hj => h.safe_cell hl hi (List.mem_range.mp hj)

lemma Packed.safe_drop : Safe (a.dropAccesses room) := by
  refine safe_flatMap.mpr fun c hc => safe_flatMap.mpr fun p hp => safe_flatMap.mpr fun j hj => ?_
  obtain ⟨k, hk⟩ := List.mem_iff_getElem?.mp hc
  have hlen := h.length_chunk hk
  exact hl.safe_cell (List.mem_range.mp hj) ((List.mem_range.mp hp).trans_le hlen)

end Packed

lemma Packed.safe_truncate (h : a.Packed) (hpos : 0 < a.count)
    (hp : p.Lends (n + a.chunks.length)) : Safe (a.truncateAccesses p) := by
  rcases h.dense with hnil | ⟨init, c, hb, hc⟩
  · rw [h.counted, h.rows_eq_nil.mpr hnil] at hpos
    exact absurd hpos (Nat.lt_irrefl 0)
  · have hlends : p.Lends (n + init.length + 1) := by
      rwa [hb.chunks, List.length_append, List.length_singleton, ← Nat.add_assoc] at hp
    rw [truncateAccesses, hb.chunks, List.getLast?_concat]
    refine safe_cons.mpr ⟨hpos, safe_cons.mpr ⟨hc, ?_⟩⟩
    split_ifs
    · exact hlends.safe_give
    · exact safe_nil

lemma Packed.safe_remove (h : a.Packed) (hl : a.layout.Fits room) (hi : i < a.count)
    (hp : p.Lends (n + a.chunks.length)) : Safe (a.removeAccesses room i p) := by
  have hpos : 0 < a.count := Nat.zero_lt_of_lt hi
  have hlast : a.count - 1 < a.count := Nat.sub_one_lt_of_lt hpos
  have hcap := h.roomy
  have hchunk : ∀ {i : Nat}, i < a.count → i / a.capacity < a.chunks.length := by
    intro i hi
    obtain ⟨c, hc, -⟩ := h.chunk_of_lt hi
    exact (List.getElem?_eq_some_iff.mp hc).1
  refine safe_append.mpr ⟨safe_cons.mpr ⟨hpos, ?_⟩, h.safe_truncate hpos hp⟩
  split_ifs with hend hsame
  · simp only [safe_cons, within_item, within_divide, safe_nil, and_true]
    exact ⟨hi, Nat.ne_zero_of_lt hcap⟩
  · exact safe_append.mpr ⟨safe_append.mpr ⟨h.safe_row hl hlast, h.safe_row hl hi⟩, safe_nil⟩
  · exact safe_append.mpr ⟨safe_append.mpr ⟨h.safe_row hl hlast, h.safe_row hl hi⟩,
      safe_pair (hchunk hlast) (hchunk hi) hsame⟩

section Reserve
variable (h : a.Packed) (hr : a.reserve p v = .ok (b, q)) (hcols : a.layout.columns ≠ [])
include h hr hcols

lemma Packed.opened : (b.opened v).Packed ∧ (b.opened v).count = a.count + 1 := by
  obtain ⟨hblank, hcount, -⟩ := reserve_spec h hr
  have hlayout := layout_of_blank hblank
  have hlen : (b.layout.kinds.tail.map fun k => k.default 0).length + 1 =
      a.layout.columns.length := by
    have hpos := List.length_pos_iff.mpr hcols
    simp only [hlayout, Layout.kinds, List.length_map, List.length_tail]
    omega
  have hcommit := commit_spec (r := ⟨.null, b.layout.kinds.tail.map fun k => k.default 0⟩) h hr hlen
  exact ⟨hcommit.1, congrArg (· + 1) hcount⟩

lemma Packed.safe_reserved (hl : a.layout.Fits room) :
    Safe ((b.opened v).rowAccesses room a.count) := by
  obtain ⟨hblank, -⟩ := reserve_spec h hr
  obtain ⟨hopened, hcount⟩ := h.opened hr hcols
  refine hopened.safe_row ?_ (hcount ▸ Nat.lt_succ_self _)
  have hlayout : (b.opened v).layout = a.layout := layout_of_blank hblank
  rwa [hlayout]

lemma Packed.safe_withdraw (hp : p.Lends (n + a.chunks.length)) :
    Safe ((b.opened v).truncateAccesses q) := by
  obtain ⟨hopened, hcount⟩ := h.opened hr hcols
  have hlends := (reshaped_reserve hr).lends n hp
  have hlength : (b.opened v).chunks.length = b.chunks.length := by
    simp [Archetype.opened, commit, modifyLast, modifyChunk]
  exact hopened.safe_truncate (hcount ▸ Nat.succ_pos _) (by rwa [hlength])

end Reserve

end Archetype

end EntityStore
