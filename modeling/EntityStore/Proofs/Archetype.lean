import Mathlib
import EntityStore.Archetype
import EntityStore.Proofs.Copying

/-!
# An archetype is a dense list of rows

`Packed` says that all chunks but the last are full and that the last is not empty. A packed
archetype is the list `rows`: an index finds the row at that place, a row that is committed comes
last, and a row that is removed is replaced by the last one. Between a reservation and its end the
chunks are `Blocks`, the last of which has room and may be empty.
-/
namespace EntityStore

/-- The last element takes the place of the one at `i`. -/
def swapRemove {α : Type} (xs : List α) (i : Nat) : List α :=
  match xs.getLast? with
  | none => []
  | some x => (xs.set i x).dropLast

section SwapRemove
variable {α β : Type} {xs : List α} {i : Nat}

lemma swapRemove_of_getLast {x : α} (h : xs.getLast? = some x) (i : Nat) :
    swapRemove xs i = (xs.set i x).dropLast := by
  rw [swapRemove, h]

lemma swapRemove_concat (xs : List α) (x : α) (i : Nat) :
    swapRemove (xs ++ [x]) i = ((xs ++ [x]).set i x).dropLast := by
  simp [swapRemove]

lemma map_swapRemove (f : α → β) (xs : List α) (i : Nat) :
    (swapRemove xs i).map f = swapRemove (xs.map f) i := by
  rcases List.eq_nil_or_concat xs with rfl | ⟨ys, y, rfl⟩
  · simp [swapRemove]
  · simp [swapRemove, List.map_dropLast, List.map_set]

lemma swapRemove_perm (hi : i < xs.length) : (xs[i] :: swapRemove xs i).Perm xs := by
  rcases List.eq_nil_or_concat xs with rfl | ⟨ys, y, rfl⟩
  · simp at hi
  · simp only [List.concat_eq_append, swapRemove_concat] at hi ⊢
    by_cases hlast : i < ys.length
    · rw [List.getElem_append_left hlast, List.set_append_left _ _ hlast, List.dropLast_concat]
      have h1 := (List.set_perm_cons_eraseIdx hlast y).cons ys[i]
      have h2 := (List.getElem_cons_eraseIdx_perm hlast).cons y
      have h3 := (List.perm_append_singleton y ys).symm
      exact h1.trans ((List.Perm.swap _ _ _).trans (h2.trans h3))
    · have hlen : i = ys.length := by
        simp at hi
        omega
      subst hlen
      simpa using (List.perm_append_singleton y ys).symm

lemma getElem?_swapRemove (hi : i < xs.length) (j : Nat) :
    (swapRemove xs i)[j]? =
      if j + 1 < xs.length then if j = i then xs[xs.length - 1]? else xs[j]? else none := by
  rcases List.eq_nil_or_concat xs with rfl | ⟨ys, y, rfl⟩
  · simp at hi
  · simp only [List.concat_eq_append, swapRemove_concat, List.getElem?_dropLast, List.length_set,
      List.length_append, List.length_singleton, Nat.add_sub_cancel] at hi ⊢
    by_cases hj : j < ys.length
    · rw [if_pos hj, if_pos (by omega)]
      by_cases hij : j = i
      · subst hij
        rw [List.getElem?_set_self (by simp; omega), if_pos rfl]
        simp
      · rw [List.getElem?_set_ne (Ne.symm hij), if_neg hij]
    · rw [if_neg hj, if_neg (by omega)]

lemma getElem?_swapRemove_eq_some {x y d : α} {j : Nat}
    (hu : ∀ (j k : Nat) z, xs[j]? = some z → xs[k]? = some z → j = k) (hi : xs[i]? = some x)
    (hd : xs[xs.length - 1]? = some d) :
    (swapRemove xs i)[j]? = some y ↔
      y ≠ x ∧ (y = d ∧ j = i ∨ y ≠ d ∧ xs[j]? = some y) := by
  rw [getElem?_swapRemove (List.getElem?_eq_some_iff.mp hi).1]
  constructor
  · intro hj
    split_ifs at hj with hlt hji
    · obtain rfl : d = y := Option.some.inj (hd.symm.trans hj)
      refine ⟨?_, .inl ⟨rfl, hji⟩⟩
      rintro rfl
      have hlast := hu _ _ d hd hi
      omega
    · refine ⟨?_, .inr ⟨?_, hj⟩⟩
      · rintro rfl
        exact hji (hu _ _ y hj hi)
      · rintro rfl
        have hlast := hu _ _ y hj hd
        omega
  · rintro ⟨hyx, ⟨rfl, rfl⟩ | ⟨hyd, hj⟩⟩
    · have hlast : j ≠ xs.length - 1 := by
        intro he
        rw [he, hd] at hi
        exact hyx (Option.some.inj hi)
      have hlt := (List.getElem?_eq_some_iff.mp hi).1
      rw [if_pos (by omega), if_pos rfl, hd]
    · have hji : j ≠ i := by
        rintro rfl
        exact hyx (Option.some.inj (hj.symm.trans hi))
      have hlast : j ≠ xs.length - 1 := by
        rintro rfl
        exact hyd (Option.some.inj (hj.symm.trans hd))
      have hlt := (List.getElem?_eq_some_iff.mp hj).1
      rw [if_pos (by omega), if_neg hji, hj]

end SwapRemove

namespace Archetype

variable {a b : Archetype} {p q : Pool} {v : UInt32} {i : Nat} {r : Row}

section Blocks
variable {m : Nat} {cs : List Chunk} {c : Chunk}

/-- The row at index `i` lies in chunk `i / m`, at position `i % m`. -/
lemma getElem?_flatMap (hm : 0 < m) (hfull : ∀ d ∈ cs, d.rows.length = m)
    (hlast : c.rows.length ≤ m) (i : Nat) : ((cs ++ [c]).flatMap Chunk.rows)[i]? =
      (cs ++ [c])[i / m]?.bind fun d => d.rows[i % m]? := by
  induction cs generalizing i with
  | nil =>
    simp only [List.nil_append, List.flatMap_singleton]
    by_cases hi : i < m
    · rw [Nat.div_eq_of_lt hi, Nat.mod_eq_of_lt hi]
      rfl
    · have hpos : 0 < i / m := Nat.div_pos (by omega) hm
      rw [List.getElem?_eq_none (by omega), List.getElem?_eq_none (by exact hpos)]
      rfl
  | cons d cs ih =>
    have hd := hfull d (by simp)
    rw [List.cons_append, List.flatMap_cons, List.getElem?_append, hd]
    split_ifs with hi
    · rw [Nat.div_eq_of_lt hi, Nat.mod_eq_of_lt hi]
      rfl
    · rw [ih (fun e he => hfull e (by simp [he])) (i - m)]
      have hdiv : i / m = (i - m) / m + 1 := by
        rw [← Nat.add_div_right _ hm]
        congr 1
        omega
      have hmod : (i - m) % m = i % m := by
        rw [← Nat.add_mod_right (i - m), Nat.sub_add_cancel (by omega)]
      rw [hdiv, hmod, List.getElem?_cons_succ]

lemma modify_append_left {α : Type} {xs ys : List α} {i : Nat} {f : α → α} (h : i < xs.length) :
    (xs ++ ys).modify i f = xs.modify i f ++ ys := by
  induction xs generalizing i with
  | nil => simp at h
  | cons x xs ih =>
    cases i with
    | zero => rfl
    | succ i => simp [ih (by simpa using h)]

lemma modify_append_right {α : Type} {xs ys : List α} {i : Nat} {f : α → α} (h : xs.length ≤ i) :
    (xs ++ ys).modify i f = xs ++ ys.modify (i - xs.length) f := by
  induction xs generalizing i with
  | nil => rfl
  | cons x xs ih =>
    obtain ⟨j, rfl⟩ : ∃ j, i = j + 1 := ⟨i - 1, by simp at h; omega⟩
    simp [ih (by simpa using h)]

lemma flatMap_modify {f : Row → Row} {g : Chunk → Chunk} (hm : 0 < m)
    (hfull : ∀ d ∈ cs, d.rows.length = m) (hlast : c.rows.length ≤ m) (i : Nat)
    (hg : ∀ d, (g d).rows = d.rows.modify (i % m) f) :
    ((cs ++ [c]).modify (i / m) g).flatMap Chunk.rows =
      ((cs ++ [c]).flatMap Chunk.rows).modify i f := by
  induction cs generalizing i with
  | nil =>
    by_cases hi : i < m
    · rw [Nat.div_eq_of_lt hi]
      simp [hg, Nat.mod_eq_of_lt hi]
    · have hpos : 0 < i / m := Nat.div_pos (by omega) hm
      rw [List.modify_eq_self (by exact hpos), List.modify_eq_self (by simp; omega)]
  | cons d cs ih =>
    have hd := hfull d (by simp)
    by_cases hi : i < m
    · rw [Nat.div_eq_of_lt hi]
      simp only [List.cons_append, List.modify_zero_cons, List.flatMap_cons, hg,
        Nat.mod_eq_of_lt hi]
      rw [modify_append_left (by omega)]
    · have hdiv : i / m = (i - m) / m + 1 := by
        rw [← Nat.add_div_right _ hm]
        congr 1
        omega
      have hmod : (i - m) % m = i % m := by
        rw [← Nat.add_mod_right (i - m), Nat.sub_add_cancel (by omega)]
      rw [hdiv, List.cons_append, List.modify_succ_cons, List.flatMap_cons, List.flatMap_cons,
        ih (fun e he => hfull e (by simp [he])) (i - m) (by rw [hmod]; exact hg),
        modify_append_right (by omega), hd]

end Blocks

end Archetype

/-- Every column has its stamp and its value in each row. -/
structure Chunk.Shaped (n : Nat) (c : Chunk) : Prop where
  stamps : c.stamps.length = n
  rows : ∀ r ∈ c.rows, r.values.length + 1 = n

namespace Chunk
variable {n : Nat} {c : Chunk} {r : Row} {v : UInt32}

lemma Shaped.mem (h : c.Shaped n) {i : Nat} (hi : c.rows[i]? = some r) : r.values.length + 1 = n :=
  h.rows r (List.mem_of_getElem? hi)

lemma shaped_fresh (n : Nat) (v : UInt32) : (fresh n v).Shaped n :=
  ⟨by simp [fresh], by simp [fresh]⟩

lemma Shaped.push (h : c.Shaped n) (hr : r.values.length + 1 = n) : (c.push r v).Shaped n where
  stamps := by simpa using h.stamps
  rows := by
    intro s hs
    rw [rows_push, List.mem_append, List.mem_singleton] at hs
    rcases hs with hs | rfl
    · exact h.rows s hs
    · exact hr

lemma Shaped.pop (h : c.Shaped n) : c.pop.Shaped n where
  stamps := h.stamps
  rows := fun r hr => h.rows r (List.dropLast_subset _ hr)

lemma Shaped.replace (h : c.Shaped n) (hr : r.values.length + 1 = n) (p : Nat) :
    (c.replace p r v).Shaped n where
  stamps := by simpa using h.stamps
  rows := by
    intro s hs
    rcases List.mem_or_eq_of_mem_set hs with hs | rfl
    · exact h.rows s hs
    · exact hr

lemma length_stamps_stampMany (c : Chunk) (v : UInt32) (js : List Nat) :
    (c.stampMany v js).stamps.length = c.stamps.length := by
  induction js generalizing c with
  | nil => rfl
  | cons j js ih =>
    have h := ih (c.stamp v j)
    simpa [stampMany, stamp] using h

lemma Shaped.stampMany (h : c.Shaped n) (js : List Nat) : (c.stampMany v js).Shaped n :=
  ⟨by rw [length_stamps_stampMany, h.stamps], by simpa using h.rows⟩

end Chunk

namespace Archetype
variable {a b : Archetype} {p q : Pool} {v : UInt32} {i : Nat} {r : Row}

/-- The archetype without its entities. -/
def blank (a : Archetype) : Archetype := { a with chunks := [], count := 0 }

lemma layout_of_blank (h : b.blank = a.blank) : b.layout = a.layout := by
  have hl : b.blank.layout = a.blank.layout := congrArg Archetype.layout h
  exact hl

lemma signature_of_blank (h : b.blank = a.blank) : b.signature = a.signature := by
  rw [signature, codes, layout_of_blank h]
  rfl

/-- The chunks are full ones and then `c`. -/
structure Blocks (a : Archetype) (init : List Chunk) (c : Chunk) : Prop where
  chunks : a.chunks = init ++ [c]
  full : ∀ d ∈ init, d.rows.length = a.capacity
  last : c.rows.length ≤ a.capacity
  shaped : ∀ d ∈ a.chunks, d.Shaped a.layout.columns.length

structure Packed (a : Archetype) : Prop where
  roomy : 2 ≤ a.capacity
  counted : a.count = a.rows.length
  dense : a.chunks = [] ∨ ∃ init c, a.Blocks init c ∧ 0 < c.rows.length

lemma Packed.shaped (h : a.Packed) : ∀ d ∈ a.chunks, d.Shaped a.layout.columns.length := by
  rcases h.dense with hnil | ⟨init, c, hb, -⟩
  · simp [hnil]
  · exact hb.shaped

lemma Packed.length_values (h : a.Packed) (hr : r ∈ a.rows) :
    r.values.length + 1 = a.layout.columns.length := by
  obtain ⟨c, hc, hrc⟩ := List.mem_flatMap.mp hr
  exact (h.shaped c hc).rows r hrc

lemma Blocks.rows {init : List Chunk} {c : Chunk} (h : a.Blocks init c) :
    a.rows = init.flatMap Chunk.rows ++ c.rows := by
  rw [Archetype.rows, h.chunks, List.flatMap_append, List.flatMap_singleton]

lemma Packed.rows_eq_nil (h : a.Packed) : a.rows = [] ↔ a.chunks = [] := by
  rcases h.dense with hnil | ⟨init, c, hb, hpos⟩
  · simp [rows, hnil]
  · rw [hb.rows, hb.chunks]
    have hne : c.rows ≠ [] := List.ne_nil_of_length_pos hpos
    simp [hne]

lemma Packed.isEmpty (h : a.Packed) : a.isEmpty = true ↔ a.rows = [] := by
  rw [Archetype.isEmpty, decide_eq_true_iff, h.counted, List.length_eq_zero_iff]

lemma Packed.chunks_of_isEmpty (h : a.Packed) (he : a.isEmpty = true) : a.chunks = [] :=
  h.rows_eq_nil.mp (h.isEmpty.mp he)

lemma packed_of_chunks_nil (hcap : 2 ≤ a.capacity) (hc : a.chunks = []) (hn : a.count = 0) :
    a.Packed :=
  ⟨hcap, by simp [rows, hc, hn], .inl hc⟩

lemma getElem?_rows (h : a.Packed) (i : Nat) :
    a.rows[i]? = a.chunks[i / a.capacity]?.bind fun d => d.rows[i % a.capacity]? := by
  have hcap := h.roomy
  rcases h.dense with hnil | ⟨init, c, hb, -⟩
  · simp [rows, hnil]
  · rw [rows, hb.chunks]
    exact getElem?_flatMap (by omega) hb.full hb.last i

/-- An index finds the row at that place. -/
theorem row_eq_ok (h : a.Packed) : a.row i = .ok r ↔ a.rows[i]? = some r := by
  rw [getElem?_rows h]
  unfold row locate
  by_cases hi : i < a.count
  · rw [if_pos hi]
    cases hc : a.chunks[i / a.capacity]? with
    | none => simp [hc]
    | some d => cases hd : d.rows[i % a.capacity]? <;> simp [hc, hd]
  · rw [if_neg hi, ← getElem?_rows h, List.getElem?_eq_none (by rw [← h.counted]; omega)]
    simp

lemma modify_concat (cs : List Chunk) (c : Chunk) (f : Chunk → Chunk) :
    (cs ++ [c]).modify cs.length f = cs ++ [f c] := by
  rw [modify_append_right le_rfl, Nat.sub_self]
  rfl

lemma Blocks.modifyLast {init : List Chunk} {c : Chunk} (h : a.Blocks init c)
    {f : Chunk → Chunk} (hlen : (f c).rows.length ≤ a.capacity)
    (hf : (f c).Shaped a.layout.columns.length) : (a.modifyLast f).Blocks init (f c) := by
  have hchunks : (a.modifyLast f).chunks = init ++ [f c] := by
    simp [Archetype.modifyLast, modifyChunk, h.chunks, modify_concat]
  refine ⟨hchunks, h.full, hlen, ?_⟩
  rw [hchunks]
  intro d hd
  rw [List.mem_append, List.mem_singleton] at hd
  rcases hd with hd | rfl
  · exact h.shaped d (by simp [h.chunks, hd])
  · exact hf

/-- After a reservation the last chunk has room, and no row has moved. A new chunk comes from the
pool. -/
theorem reserve_spec (h : a.Packed) (hr : a.reserve p v = .ok (b, q)) :
    b.blank = a.blank ∧ b.count = a.count ∧ b.rows = a.rows ∧
      ∃ init c, b.Blocks init c ∧ c.rows.length < a.capacity ∧
        ((0 < c.rows.length ∧ b = a ∧ q = p) ∨
          (c.rows = [] ∧ a.chunks = init ∧ p.take = .ok q)) := by
  have hcap := h.roomy
  unfold reserve at hr
  split_ifs at hr with hroom hmax
  · obtain ⟨rfl, rfl⟩ := Prod.mk.inj (Except.ok.inj hr)
    rcases h.dense with hnil | ⟨init, c, hb, hpos⟩
    · simp [hasRoom, hnil] at hroom
    · have hne : c.rows.length ≠ a.capacity := by simpa [hasRoom, hb.chunks] using hroom
      have hle := hb.last
      exact ⟨rfl, rfl, rfl, init, c, hb, by omega, .inl ⟨hpos, rfl, rfl⟩⟩
  · obtain ⟨q', ht, hbq⟩ := ok_of_map hr
    obtain ⟨rfl, rfl⟩ := Prod.mk.inj hbq
    refine ⟨rfl, rfl, by simp [rows, Chunk.fresh], a.chunks, _, ⟨rfl, ?_, ?_, ?_⟩, ?_,
      .inr ⟨rfl, rfl, ht⟩⟩
    · intro d hd
      rcases h.dense with hnil | ⟨init, c, hb, -⟩
      · simp [hnil] at hd
      · rw [hb.chunks, List.mem_append, List.mem_singleton] at hd
        rcases hd with hd | rfl
        · exact hb.full d hd
        -- the last chunk has no room left, or none would be opened
        · have hd : d.rows.length = a.capacity := by simpa [hasRoom, hb.chunks] using hroom
          exact hd
    · simp [Chunk.fresh]
    · intro d hd
      rw [List.mem_append, List.mem_singleton] at hd
      rcases hd with hd | rfl
      · exact h.shaped d hd
      · exact Chunk.shaped_fresh _ _
    · simp only [Chunk.fresh, List.length_nil]
      omega

theorem reserve_error {f : Fault} (hr : a.reserve p v = .error f) :
    (a.maxChunks ≤ a.chunks.length ∧ f = .capacityExceeded .archetypeChunks a.maxChunks) ∨
      p.take = .error f := by
  unfold reserve at hr
  split_ifs at hr with hroom hmax
  · exact .inl ⟨hmax, (Except.error.inj hr).symm⟩
  · exact .inr (error_of_map hr)

lemma rows_commit (h : a.Packed) (hr : a.reserve p v = .ok (b, q)) (r : Row) :
    (b.commit r v).rows = a.rows ++ [r] ∧ (b.commit r v).blank = a.blank := by
  obtain ⟨hblank, -, hrows, init, c, hb, -⟩ := reserve_spec h hr
  refine ⟨?_, hblank⟩
  have hchunks : (b.commit r v).chunks = init ++ [c.push r v] := by
    simp only [commit, modifyLast, modifyChunk]
    rw [hb.chunks, List.length_append, List.length_singleton, Nat.add_sub_cancel]
    exact modify_concat init c _
  rw [rows, hchunks, List.flatMap_append, List.flatMap_singleton, Chunk.rows_push,
    ← List.append_assoc, ← hb.rows, hrows]

/-- With a value for each column the archetype is packed again. -/
theorem commit_spec (h : a.Packed) (hr : a.reserve p v = .ok (b, q))
    (hlen : r.values.length + 1 = a.layout.columns.length) :
    (b.commit r v).Packed ∧ (b.commit r v).rows = a.rows ++ [r] ∧
      (b.commit r v).blank = a.blank := by
  obtain ⟨hblank, hcount, -, init, c, hb, hroom, -⟩ := reserve_spec h hr
  have hlayout := layout_of_blank hblank
  have hcap : b.capacity = a.capacity := congrArg Layout.capacity hlayout
  have hshape : (c.push r v).Shaped b.layout.columns.length :=
    (hb.shaped c (by simp [hb.chunks])).push (by rw [hlayout, hlen])
  have hlast := hb.modifyLast (f := (·.push r v)) (by simp; omega) hshape
  obtain ⟨hnew, -⟩ := rows_commit h hr r
  refine ⟨⟨?_, ?_, .inr ⟨init, _, ⟨hlast.chunks, hlast.full, hlast.last, hlast.shaped⟩, ?_⟩⟩,
    hnew, hblank⟩
  · exact hcap ▸ h.roomy
  · rw [hnew, List.length_append, ← h.counted, ← hcount]
    rfl
  · simp

lemma trim_spec {init : List Chunk} {c : Chunk} (hb : a.Blocks init c) (hcap : 2 ≤ a.capacity)
    (hcount : a.count = a.rows.length) :
    (a.trim p).1.Packed ∧ (a.trim p).1.rows = a.rows ∧ (a.trim p).1.blank = a.blank := by
  unfold trim
  rw [hb.chunks, List.getLast?_concat]
  by_cases hc : c.rows = []
  · have hrows : a.rows = init.flatMap Chunk.rows := by rw [hb.rows, hc, List.append_nil]
    simp only [hc, List.isEmpty_nil, if_true, List.dropLast_concat]
    refine ⟨⟨hcap, by rw [hcount, hrows]; rfl, ?_⟩, hrows.symm, rfl⟩
    rcases List.eq_nil_or_concat init with hnil | ⟨init', c', hinit⟩
    · exact .inl hnil
    · rw [List.concat_eq_append] at hinit
      have hlast : c'.rows.length = a.capacity := hb.full c' (by simp [hinit])
      refine .inr ⟨init', c', ⟨hinit, ?_, hlast.le, ?_⟩, by omega⟩
      · exact fun d hd => hb.full d (by simp [hinit, hd])
      · exact fun d hd => hb.shaped d (by rw [hb.chunks]; exact List.mem_append_left _ hd)
  · have hne : c.rows.isEmpty = false := by simpa using hc
    simp only [hne, Bool.false_eq_true, if_false]
    exact ⟨⟨hcap, hcount, .inr ⟨init, c, hb, List.length_pos_iff.mpr hc⟩⟩, trivial, trivial⟩

/-- A reservation that is given up leaves the rows as they were. -/
theorem abandon_spec (h : a.Packed) (hr : a.reserve p v = .ok (b, q)) (js : List Nat) :
    (b.abandon js q v).1.Packed ∧ (b.abandon js q v).1.rows = a.rows ∧
      (b.abandon js q v).1.blank = a.blank := by
  obtain ⟨hblank, hcount, hrows, init, c, hb, hroom, -⟩ := reserve_spec h hr
  have hcap : b.capacity = a.capacity := congrArg Layout.capacity (layout_of_blank hblank)
  have hlast := hb.modifyLast (f := (·.stampMany v js)) (by simp; omega)
    ((hb.shaped c (by simp [hb.chunks])).stampMany js)
  have hsame : (b.modifyLast (·.stampMany v js)).rows = a.rows := by
    rw [hlast.rows, Chunk.rows_stampMany, ← hb.rows, hrows]
  obtain ⟨hpacked, hrows', hblank'⟩ := trim_spec (p := q) hlast (hcap ▸ h.roomy)
    (by rw [hsame, ← h.counted]; exact hcount)
  exact ⟨hpacked, hrows'.trans hsame, hblank'.trans hblank⟩

theorem truncate_spec (h : a.Packed) (hne : a.rows ≠ []) :
    (a.truncate p).1.Packed ∧ (a.truncate p).1.rows = a.rows.dropLast ∧
      (a.truncate p).1.blank = a.blank := by
  rcases h.dense with hnil | ⟨init, c, hb, hpos⟩
  · exact absurd (h.rows_eq_nil.mpr hnil) hne
  · have hlast := hb.modifyLast (f := Chunk.pop)
      (by have := hb.last; simp only [Chunk.rows_pop, List.length_dropLast]; omega)
      (hb.shaped c (by simp [hb.chunks])).pop
    have hdrop : (a.modifyLast Chunk.pop).rows = a.rows.dropLast := by
      rw [hlast.rows, hb.rows, Chunk.rows_pop,
        List.dropLast_append_of_ne_nil (List.ne_nil_of_length_pos hpos)]
    have hb' : Blocks { a.modifyLast Chunk.pop with count := a.count - 1 } init c.pop :=
      ⟨hlast.chunks, hlast.full, hlast.last, hlast.shaped⟩
    obtain ⟨hpacked, hrows, hblank⟩ := trim_spec (p := p) hb' h.roomy (by
      have : a.count - 1 = (a.modifyLast Chunk.pop).rows.length := by
        rw [hdrop, List.length_dropLast, h.counted]
      exact this)
    exact ⟨hpacked, hrows.trans hdrop, hblank⟩

lemma map_modify {α β : Type} {xs : List α} {k : Nat} {f : α → α} (g : α → β)
    (h : ∀ x, xs[k]? = some x → g (f x) = g x) : (xs.modify k f).map g = xs.map g := by
  apply List.ext_getElem?
  intro i
  rw [List.getElem?_map, List.getElem?_map, List.getElem?_modify]
  split_ifs with hik
  · subst hik
    cases hx : xs[k]? with
    | none => rfl
    | some x => simp [h x hx]
  · simp

lemma modifyChunk_congr {k : Nat} {f g : Chunk → Chunk}
    (h : ∀ c, a.chunks[k]? = some c → f c = g c) : a.modifyChunk k f = a.modifyChunk k g := by
  have hchunks : a.chunks.modify k f = a.chunks.modify k g := by
    cases hc : a.chunks[k]? with
    | none =>
      have hlen : a.chunks.length ≤ k := List.getElem?_eq_none_iff.mp hc
      rw [List.modify_eq_self hlen, List.modify_eq_self hlen]
    | some c => rw [modify_of_getElem? hc, modify_of_getElem? hc, h c hc]
  rw [modifyChunk, hchunks]
  rfl

lemma mem_modify {α : Type} {xs : List α} {k : Nat} {f : α → α} {y : α}
    (h : y ∈ xs.modify k f) : y ∈ xs ∨ ∃ x, xs[k]? = some x ∧ y = f x := by
  obtain ⟨i, hi⟩ := List.mem_iff_getElem?.mp h
  rw [List.getElem?_modify] at hi
  split_ifs at hi with hik
  · obtain ⟨x, hx, rfl⟩ := Option.map_eq_some_iff.mp hi
    exact .inr ⟨x, hik ▸ hx, rfl⟩
  · exact .inl (List.mem_of_getElem? (by simpa using hi))

/-- A chunk may be changed as long as it keeps its length and its shape. -/
lemma Blocks.modifyChunk {init : List Chunk} {c : Chunk} (h : a.Blocks init c) {k : Nat}
    {f : Chunk → Chunk} (hlen : ∀ d, a.chunks[k]? = some d → (f d).rows.length = d.rows.length)
    (hf : ∀ d, a.chunks[k]? = some d → (f d).Shaped a.layout.columns.length) :
    ∃ init' c', (a.modifyChunk k f).Blocks init' c' ∧ c'.rows.length = c.rows.length := by
  have hshaped : ∀ d ∈ (a.modifyChunk k f).chunks, d.Shaped a.layout.columns.length := by
    intro d hd
    rcases mem_modify hd with hd | ⟨e, he, rfl⟩
    · exact h.shaped d hd
    · exact hf e he
  by_cases hk : k < init.length
  · have hchunks : (a.modifyChunk k f).chunks = init.modify k f ++ [c] := by
      rw [Archetype.modifyChunk, h.chunks, modify_append_left hk]
    refine ⟨init.modify k f, c, ⟨hchunks, ?_, h.last, hshaped⟩, rfl⟩
    intro d hd
    rcases mem_modify hd with hd | ⟨e, he, rfl⟩
    · exact h.full d hd
    · rw [hlen e (by rw [h.chunks, List.getElem?_append_left hk, he])]
      exact h.full e (List.mem_of_getElem? he)
  · by_cases hk' : k = init.length
    · subst hk'
      have hchunks : (a.modifyChunk init.length f).chunks = init ++ [f c] := by
        rw [Archetype.modifyChunk, h.chunks, modify_concat]
      have hc := hlen c (by simp [h.chunks])
      exact ⟨init, f c, ⟨hchunks, h.full, hc.trans_le h.last, hshaped⟩, hc⟩
    · have hchunks : (a.modifyChunk k f).chunks = init ++ [c] := by
        rw [Archetype.modifyChunk, h.chunks, List.modify_eq_self (by simp; omega)]
      exact ⟨init, c, ⟨hchunks, h.full, h.last, hshaped⟩, rfl⟩

theorem packed_modifyChunk (h : a.Packed) {k : Nat} {f : Chunk → Chunk}
    (hlen : ∀ d, a.chunks[k]? = some d → (f d).rows.length = d.rows.length)
    (hf : ∀ d, a.chunks[k]? = some d → (f d).Shaped a.layout.columns.length) :
    (a.modifyChunk k f).Packed := by
  have hlength : (a.modifyChunk k f).rows.length = a.rows.length := by
    have hmap : (a.modifyChunk k f).chunks.map (fun d => d.rows.length) =
        a.chunks.map (fun d => d.rows.length) := map_modify _ hlen
    rw [rows, rows, List.length_flatMap, List.length_flatMap, hmap]
  refine ⟨h.roomy, by rw [hlength, ← h.counted]; rfl, ?_⟩
  rcases h.dense with hnil | ⟨init, c, hb, hpos⟩
  · exact .inl (by simp [Archetype.modifyChunk, hnil])
  · obtain ⟨init', c', hb', hlast⟩ := hb.modifyChunk hlen hf
    exact .inr ⟨init', c', hb', by omega⟩

lemma rows_modifyChunk (h : a.Packed) {f : Row → Row} {g : Chunk → Chunk} (i : Nat)
    (hg : ∀ d, (g d).rows = d.rows.modify (i % a.capacity) f) :
    (a.modifyChunk (i / a.capacity) g).rows = a.rows.modify i f := by
  have hcap := h.roomy
  rcases h.dense with hnil | ⟨init, c, hb, -⟩
  · simp [rows, Archetype.modifyChunk, hnil]
  · rw [rows, rows, Archetype.modifyChunk, hb.chunks]
    exact flatMap_modify (by omega) hb.full hb.last i hg

lemma exists_chunk (h : a.Packed) (hr : a.rows[i]? = some r) :
    ∃ c, a.locate i = .ok (i / a.capacity, i % a.capacity) ∧ a.chunks[i / a.capacity]? = some c ∧
      c.rows[i % a.capacity]? = some r := by
  have hrow := (row_eq_ok h).mpr hr
  have hlocate : a.locate i = .ok (i / a.capacity, i % a.capacity) := by
    rw [locate, if_pos (h.counted ▸ (List.getElem?_eq_some_iff.mp hr).1)]
  simp only [row, hlocate] at hrow
  split at hrow
  next => cases hrow
  next c hc =>
    split at hrow
    next => cases hrow
    next r' hr' =>
      obtain rfl := Except.ok.inj hrow
      exact ⟨c, hlocate, hc, hr'⟩

/-- A row that has been copied over another one stands there. -/
theorem copyRow_eq (h : a.Packed) {k : Nat} (hr : a.rows[k]? = some r) (hi : i < a.rows.length)
    (hne : k ≠ i) : a.copyRow k i v =
      .ok (a.modifyChunk (i / a.capacity) (·.replace (i % a.capacity) r v)) := by
  obtain ⟨c, hk, hc, hrow⟩ := exists_chunk h hr
  obtain ⟨d, hlocate, hd, hdrow⟩ := exists_chunk h (List.getElem?_eq_getElem hi)
  have hlen := h.length_values (List.mem_of_getElem? hr)
  have hlen' := h.length_values (List.getElem_mem hi)
  have hwritten : ∀ e : Chunk, a.chunks[i / a.capacity]? = some e →
      { e with rows := e.rows.modify (i % a.capacity) fun d =>
        d.takeCells r a.layout.columns.length }.stampAll v = e.replace (i % a.capacity) r v := by
    intro e he
    obtain rfl := Option.some.inj (hd.symm.trans he)
    rw [← hlen]
    exact Chunk.replace_eq hdrow (by omega)
  rw [copyRow, hk, hlocate]
  dsimp only
  split_ifs with hsame
  · have hpq : k % a.capacity ≠ i % a.capacity := fun hmod => hne (by
      rw [← Nat.div_add_mod k a.capacity, hsame, hmod, Nat.div_add_mod])
    refine congrArg Except.ok (modifyChunk_congr fun e he => ?_)
    rw [hsame] at hc
    obtain rfl := Option.some.inj (hc.symm.trans he)
    rw [Chunk.copyWithin_eq hrow hpq]
    exact hwritten _ he
  · rw [hc]
    refine congrArg Except.ok (modifyChunk_congr fun e he => ?_)
    rw [Chunk.copyFrom_eq hrow]
    exact hwritten e he

/-- The row at `i` is taken out and the last one put in its place. -/
theorem remove_spec (h : a.Packed) (hi : i < a.rows.length) :
    ∃ d b q, a.remove i p v = .ok (d, b, q) ∧ b.Packed ∧ b.rows = swapRemove a.rows i ∧
      b.blank = a.blank ∧
      ∃ last, a.rows[a.rows.length - 1]? = some last ∧
        d = if i = a.rows.length - 1 then none else some last.handle := by
  have hlast : ∃ last, a.rows[a.rows.length - 1]? = some last :=
    ⟨_, List.getElem?_eq_getElem (by omega)⟩
  obtain ⟨last, hl⟩ := hlast
  have hlast' : a.rows.getLast? = some last := by rw [List.getLast?_eq_getElem?, hl]
  have hne : a.rows ≠ [] := List.ne_nil_of_length_pos (by omega)
  have hlocate : a.locate i = .ok (i / a.capacity, i % a.capacity) := by
    rw [locate, if_pos (by rw [h.counted]; exact hi)]
  unfold remove
  rw [hlocate, h.counted]
  by_cases hend : i = a.rows.length - 1
  · obtain ⟨hpacked, hrows, hblank⟩ := truncate_spec (p := p) h hne
    refine ⟨none, _, _, by simp only [if_pos hend]; rfl, hpacked, ?_, hblank, last, hl, ?_⟩
    · have hset : a.rows.set i last = a.rows := by
        rw [← hend] at hl
        obtain ⟨hlt, rfl⟩ := List.getElem?_eq_some_iff.mp hl
        exact List.set_getElem_self hlt
      rw [hrows, swapRemove_of_getLast hlast', hset]
    · rw [if_pos hend]
  · have hcopy := copyRow_eq (v := v) h hl hi (Ne.symm hend)
    have hshape : last.values.length + 1 = a.layout.columns.length :=
      h.length_values (List.mem_of_getElem? hl)
    have hmod : (a.modifyChunk (i / a.capacity) (·.replace (i % a.capacity) last v)).Packed :=
      packed_modifyChunk h (by simp) fun d hd =>
        (h.shaped d (List.mem_of_getElem? hd)).replace hshape _
    have hrows : (a.modifyChunk (i / a.capacity) (·.replace (i % a.capacity) last v)).rows =
        a.rows.set i last := by
      rw [rows_modifyChunk h (f := fun _ => last) i fun d => by
        rw [Chunk.rows_replace, List.set_eq_modify], List.set_eq_modify]
    have hne' : (a.modifyChunk (i / a.capacity) (·.replace (i % a.capacity) last v)).rows ≠ [] := by
      rw [hrows]
      simpa using hne
    have hhandle : (a.modifyChunk (i / a.capacity) (·.replace (i % a.capacity) last v)).handleAt i =
        .ok last.handle := by
      rw [handleAt, (row_eq_ok hmod).mpr (by rw [hrows, List.getElem?_set_self hi])]
      rfl
    obtain ⟨hpacked, htrunc, hblank⟩ := truncate_spec (p := p) hmod hne'
    refine ⟨some last.handle, _, _, by simp only [if_neg hend, hcopy, hhandle]; rfl, hpacked, ?_,
      hblank, last, hl, by rw [if_neg hend]⟩
    rw [htrunc, hrows, swapRemove_of_getLast hlast']

theorem modifyCell_spec (h : a.Packed) {j : Nat} {f : Value → Value}
    (hm : a.modifyCell j i f v = .ok b) :
    b.Packed ∧ b.rows = a.rows.modify i (·.modify f j) ∧ b.blank = a.blank := by
  unfold modifyCell locate at hm
  split_ifs at hm with hi
  · simp only [Except.map, Except.ok.injEq] at hm
    subst hm
    refine ⟨packed_modifyChunk h (by simp [Chunk.modifyCell]) fun d hd => ?_,
      rows_modifyChunk h i fun d => rfl, rfl⟩
    have hd := h.shaped d (List.mem_of_getElem? hd)
    refine ⟨by simpa [Chunk.modifyCell, Chunk.stamp] using hd.stamps, fun r hr => ?_⟩
    rcases mem_modify hr with hr | ⟨s, hs, rfl⟩
    · exact hd.rows r hr
    · have hlen := hd.mem hs
      cases j with
      | zero => simpa [Row.modify] using hlen
      | succ j => simpa [Row.modify] using hlen
  · simp [Except.map] at hm

/-- A reservation takes the room there is, or opens a new chunk. -/
lemma reserve_eq_ok (h : a.reserve p v = .ok (b, q)) :
    a.hasRoom = true ∧ b = a ∧ q = p ∨
      a.hasRoom = false ∧ a.chunks.length < a.maxChunks ∧ p.take = .ok q ∧
        b = { a with chunks := a.chunks ++ [Chunk.fresh a.layout.columns.length v] } := by
  unfold reserve at h
  split_ifs at h with hroom hmax
  · obtain ⟨rfl, rfl⟩ := Prod.mk.inj (Except.ok.inj h)
    exact .inl ⟨hroom, rfl, rfl⟩
  · obtain ⟨q', ht, hbq⟩ := ok_of_map h
    obtain ⟨rfl, rfl⟩ := Prod.mk.inj hbq
    exact .inr ⟨by simpa using hroom, not_le.mp hmax, ht, rfl⟩

lemma copyRow_eq_ok {k : Nat} (h : a.copyRow k i v = .ok b) :
    ∃ f : Chunk → Chunk, b = a.modifyChunk (i / a.capacity) f ∧
      ∀ c, (f c).stamps = c.stamps.map fun _ => v := by
  unfold copyRow at h
  split at h
  next => simp at h
  next => simp at h
  next k' p m q hk hm =>
    obtain ⟨rfl, rfl⟩ : i / a.capacity = m ∧ i % a.capacity = q := by
      unfold locate at hm
      split_ifs at hm
      exact Prod.mk.inj (Except.ok.inj hm)
    dsimp only at h
    split_ifs at h with hsame
    · exact ⟨_, (Except.ok.inj h).symm, fun c => by rw [← Chunk.stamps_copyWithin c]; rfl⟩
    · split at h
      next => simp at h
      next source hsource =>
        exact ⟨_, (Except.ok.inj h).symm, fun c => by rw [← Chunk.stamps_copyFrom c source]; rfl⟩

/-- Taking a row out is dropping the last one, which is written over another first if that is the
one to go. -/
lemma remove_eq_ok {d : Option Handle} (h : a.remove i p v = .ok (d, b, q)) :
    ∃ a' : Archetype, a'.truncate p = (b, q) ∧ (i = a.count - 1 ∧ a' = a ∨
      i ≠ a.count - 1 ∧ ∃ f : Chunk → Chunk, a' = a.modifyChunk (i / a.capacity) f ∧
        ∀ c, (f c).stamps = c.stamps.map fun _ => v) := by
  unfold remove at h
  split at h
  next => simp at h
  next =>
    split_ifs at h with hlast
    · exact ⟨a, (Prod.mk.inj (Except.ok.inj h)).2, .inl ⟨hlast, rfl⟩⟩
    · split at h
      next => simp at h
      next a' hcopy =>
        split at h
        next => simp at h
        next =>
          exact ⟨a', (Prod.mk.inj (Except.ok.inj h)).2, .inr ⟨hlast, copyRow_eq_ok hcopy⟩⟩

end Archetype

end EntityStore
