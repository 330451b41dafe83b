import Mathlib
import EntityStore.World.Columns
import EntityStore.Proofs.Ledger
import EntityStore.Proofs.Tracing

/-!
# Editing the columns of a chunk

An edit leaves, changes or replaces each value of a column. The owned values of the chunk balance
with those given up and with the traffic of the edit. Handles and the shape of the chunk stay as
they are.
-/
namespace EntityStore

/-- What is handed over or changed where it stands by a change of a value. -/
def Change.traffic (k : Kind) (v : Value) : Change → Traffic
  | leave => 0
  | amend c => (0, owned [(k, v, c)])
  | replace u => (owned [(k, u)], 0)

lemma Change.balance (c : Change) (k : Kind) (v : Value) :
    owned [(k, c.apply v)] + owned ((if c.givesUp then [v] else []).map (k, ·)) +
        (c.traffic k v).leaving =
      owned [(k, v)] + (c.traffic k v).entering := by
  cases c <;>
    simp [apply, givesUp, traffic, Traffic.entering, Traffic.leaving, map_owned_singleton, add_comm]

namespace Edit

/-- The edit of what is behind the first value. -/
def tail (e : Edit) : Edit := fun i v => e (i + 1) v

def replaced (e : Edit) (vs : List Value) : List Value :=
  (vs.zipIdx.filter fun vi => (e vi.2 vi.1).givesUp).map Prod.fst

/-- The traffic of editing a column of values of a kind. -/
def traffic (e : Edit) (k : Kind) (vs : List Value) : Traffic :=
  (vs.zipIdx.map fun vi => (e vi.2 vi.1).traffic k vi.1).sum

lemma zipIdx_cons (v : Value) (vs : List Value) :
    (v :: vs).zipIdx = (v, 0) :: vs.zipIdx.map fun vi => (vi.1, vi.2 + 1) := by
  rw [List.zipIdx_cons, List.zipIdx_succ]

lemma replaced_cons (e : Edit) (v : Value) (vs : List Value) :
    e.replaced (v :: vs) = (if (e 0 v).givesUp then [v] else []) ++ e.tail.replaced vs := by
  rw [replaced, zipIdx_cons, List.filter_cons, List.filter_map]
  split_ifs <;> simp [replaced, tail, Function.comp_def]

lemma traffic_cons (e : Edit) (k : Kind) (v : Value) (vs : List Value) :
    e.traffic k (v :: vs) = (e 0 v).traffic k v + e.tail.traffic k vs := by
  rw [traffic, zipIdx_cons, List.map_cons, List.sum_cons, List.map_map]
  rfl

end Edit

def rowsStock (ks : List Kind) (rs : List Row) : Multiset (Kind × Value) :=
  owned (rs.flatMap fun r => ks.zip r.values)

section Rows
variable {ks : List Kind} {rs : List Row} {k : Kind} {j : Nat} {f : Value → Value} {v : Value}

lemma Archetype.stock_eq (a : Archetype) : a.stock = rowsStock a.layout.kinds.tail a.rows := by
  rw [stock, stockOf, rowsStock, entries, List.flatMap_map]
  congr 1
  exact congrArg (List.flatMap · a.rows) (funext fun r => kinds_labelled r)

lemma rowsStock_cons (ks : List Kind) (r : Row) (rs : List Row) :
    rowsStock ks (r :: rs) = owned (ks.zip r.values) + rowsStock ks rs := by
  rw [rowsStock, List.flatMap_cons, owned_append, rowsStock]

lemma rowsStock_append (ks : List Kind) (rs ss : List Row) :
    rowsStock ks (rs ++ ss) = rowsStock ks rs + rowsStock ks ss := by
  rw [rowsStock, List.flatMap_append, owned_append, rowsStock, rowsStock]

lemma owned_zip_modify {vs : List Value} (hk : ks[j]? = some k) (hv : vs[j]? = some v) :
    owned (ks.zip (vs.modify j f)) + owned [(k, v)] = owned (ks.zip vs) + owned [(k, f v)] := by
  induction j generalizing ks vs with
  | zero =>
    cases ks with
    | nil => simp at hk
    | cons k' ks =>
      cases vs with
      | nil => simp at hv
      | cons v' vs =>
        obtain rfl : k' = k := by simpa using hk
        obtain rfl : v' = v := by simpa using hv
        rw [List.modify_zero_cons, List.zip_cons_cons, List.zip_cons_cons,
          owned_cons _ (ks.zip vs), owned_cons _ (ks.zip vs), add_right_comm, add_comm (owned _),
          add_right_comm]
  | succ j ih =>
    cases ks with
    | nil => simp at hk
    | cons k' ks =>
      cases vs with
      | nil => simp at hv
      | cons v' vs =>
        have h : owned (ks.zip (vs.modify j f)) + owned [(k, v)] =
            owned (ks.zip vs) + owned [(k, f v)] := ih (by simpa using hk) (by simpa using hv)
        rw [List.modify_succ_cons, List.zip_cons_cons, List.zip_cons_cons, owned_cons,
          owned_cons (k', v') (ks.zip vs), add_assoc, h, add_assoc]

lemma rowsStock_modify {i : Nat} {r : Row} (hk : ks[j]? = some k) (hr : rs[i]? = some r)
    (hv : r.values[j]? = some v) :
    rowsStock ks (rs.modify i (·.modify f (j + 1))) + owned [(k, v)] =
      rowsStock ks rs + owned [(k, f v)] := by
  induction rs generalizing i with
  | nil => simp at hr
  | cons s rs ih =>
    cases i with
    | zero =>
      obtain rfl : s = r := by simpa using hr
      have h := owned_zip_modify (f := f) hk hv
      rw [List.modify_zero_cons, rowsStock_cons, rowsStock_cons, add_right_comm]
      change owned (ks.zip (s.values.modify j f)) + _ + _ = _
      rw [h, add_right_comm]
    | succ i =>
      have h := ih (i := i) (by simpa using hr)
      rw [List.modify_succ_cons, rowsStock_cons, rowsStock_cons, add_assoc, h, add_assoc]

lemma rowsStock_edit (hk : ks[j]? = some k) (hlen : ∀ r ∈ rs, j < r.values.length) (e : Edit) :
    rowsStock ks (rs.mapIdx fun i r => r.modify (fun v => (e i v).apply v) (j + 1)) +
        owned ((e.replaced (rs.filterMap fun r => r.cell (j + 1))).map (k, ·)) +
        (e.traffic k (rs.filterMap fun r => r.cell (j + 1))).leaving =
      rowsStock ks rs + (e.traffic k (rs.filterMap fun r => r.cell (j + 1))).entering := by
  induction rs generalizing e with
  | nil => rfl
  | cons r rs ih =>
    obtain ⟨v, hv⟩ : ∃ v, r.values[j]? = some v :=
      ⟨_, List.getElem?_eq_getElem (hlen r List.mem_cons_self)⟩
    have hcolumn : (r :: rs).filterMap (fun r => r.cell (j + 1)) =
        v :: rs.filterMap fun r => r.cell (j + 1) := List.filterMap_cons_some hv
    have htail := ih (fun s hs => hlen s (List.mem_cons_of_mem r hs)) e.tail
    have hhead := owned_zip_modify (f := fun v => (e 0 v).apply v) hk hv
    have hchange := (e 0 v).balance k v
    rw [hcolumn, List.mapIdx_cons, rowsStock_cons, rowsStock_cons, Edit.replaced_cons,
      Edit.traffic_cons, List.map_append, owned_append, Traffic.entering_add, Traffic.leaving_add]
    change owned (ks.zip (r.values.modify j fun v => (e 0 v).apply v)) +
      rowsStock ks (rs.mapIdx fun i r => r.modify (fun v => (e.tail i v).apply v) (j + 1)) +
      _ + _ = _
    generalize rowsStock ks (rs.mapIdx _) = rest at htail ⊢
    apply add_right_cancel (b := owned [(k, v)])
    calc _ = owned (ks.zip (r.values.modify j fun v => (e 0 v).apply v)) + owned [(k, v)] +
          owned ((if (e 0 v).givesUp then [v] else []).map (k, ·)) + ((e 0 v).traffic k v).leaving +
          (rest + owned ((e.tail.replaced (rs.filterMap fun r => r.cell (j + 1))).map (k, ·)) +
            (e.tail.traffic k (rs.filterMap fun r => r.cell (j + 1))).leaving) := by abel
      _ = owned (ks.zip r.values) + (owned [(k, (e 0 v).apply v)] +
          owned ((if (e 0 v).givesUp then [v] else []).map (k, ·)) +
          ((e 0 v).traffic k v).leaving) +
          (rowsStock ks rs +
            (e.tail.traffic k (rs.filterMap fun r => r.cell (j + 1))).entering) := by
        rw [hhead, htail]
        abel
      _ = _ := by
        rw [hchange]
        abel

end Rows

/-- A chunk was written at version `v`: its handles and its shape are as they were, what was written
is stamped, and what it holds balances with the values given up and the traffic. -/
structure Chunk.Rewritten (v : UInt32) (l : Layout) (c c' : Chunk) (gone : List (Kind × Value))
    (x : Traffic) : Prop where
  traced : Traced {v} c.columns c'.columns
  handles : c'.rows.map Row.handle = c.rows.map Row.handle
  shaped : c.Shaped l.columns.length → c'.Shaped l.columns.length
  balance : rowsStock l.kinds.tail c'.rows + owned gone + x.leaving =
    rowsStock l.kinds.tail c.rows + x.entering

namespace Chunk
variable {l : Layout} {c c' c'' : Chunk} {gone gone' : List (Kind × Value)} {j : Nat} {k : Kind}
  {x y : Traffic} {v : UInt32}

lemma Rewritten.refl (v : UInt32) (l : Layout) (c : Chunk) : Rewritten v l c c [] 0 :=
  ⟨.refl _ _, rfl, id, by simp⟩

lemma Rewritten.trans (h : Rewritten v l c c' gone x) (h' : Rewritten v l c' c'' gone' y) :
    Rewritten v l c c'' (gone ++ gone') (x + y) where
  traced := h.traced.trans h'.traced
  handles := h'.handles.trans h.handles
  shaped hc := h'.shaped (h.shaped hc)
  balance := by
    have hfirst := h.balance
    have hsecond := h'.balance
    rw [owned_append, Traffic.entering_add, Traffic.leaving_add]
    calc _ = rowsStock l.kinds.tail c''.rows + owned gone' + y.leaving +
          (owned gone + x.leaving) := by abel
      _ = rowsStock l.kinds.tail c'.rows + owned gone + x.leaving + y.entering := by
        rw [hsecond]
        abel
      _ = _ := by rw [hfirst]; abel

lemma Rewritten.length (h : Rewritten v l c c' gone x) : c'.rows.length = c.rows.length := by
  simpa using congrArg List.length h.handles

theorem rewritten_editColumn (hc : c.Shaped l.columns.length) (hk : l.kinds[j + 1]? = some k)
    (e : Edit) (v : UInt32) :
    Rewritten v l c (c.editColumn (j + 1) e v) ((c.replaced (j + 1) e).map (k, ·))
      (e.traffic k (c.column (j + 1))) where
  traced := traced_editColumn e rfl
  handles := by
    apply List.ext_getElem?
    intro i
    simp [editColumn, Function.comp_def]
  shaped _ := by
    refine ⟨by simpa [editColumn, stamp] using hc.stamps, fun r hr => ?_⟩
    obtain ⟨i, hi, rfl⟩ := List.mem_mapIdx.mp hr
    have hlen := hc.rows _ (List.getElem_mem hi)
    simpa [Row.modify] using hlen
  balance := by
    have hj : j + 1 < l.columns.length := by
      have hlt := (List.getElem?_eq_some_iff.mp hk).1
      simpa [Layout.kinds] using hlt
    refine rowsStock_edit (by rwa [List.getElem?_tail]) (fun r hr => ?_) e
    have hlen := hc.rows r hr
    omega

end Chunk

lemma View.editColumn_eq_ok {v : View} {j : Nat} {e : Edit} {version : UInt32} {d : View.Edited}
    (h : v.editColumn j e version = .ok d) :
    ∃ i k, j = i + 1 ∧ v.layout.kinds[i + 1]? = some k ∧
      d.chunk = v.chunk.editColumn (i + 1) e version ∧
      d.replaced = v.chunk.replaced (i + 1) e := by
  unfold View.editColumn at h
  cases hcol : v.column j with
  | error f => simp [hcol] at h
  | ok vs =>
    simp only [hcol] at h
    split_ifs at h with hj
    obtain ⟨i, rfl⟩ := Nat.exists_eq_succ_of_ne_zero hj
    have hsize : ∃ k, v.layout.kinds[i + 1]? = some k := by
      cases hk : v.layout.kinds[i + 1]? with
      | some k => exact ⟨k, rfl⟩
      | none =>
        have hs : v.layout.sizes[i + 1]? = none := by simp [Layout.sizes, hk]
        simp [View.column, Layout.columnRange, hs, Except.map] at hcol
    obtain ⟨k, hk⟩ := hsize
    obtain rfl := Except.ok.inj h
    exact ⟨i, k, rfl, hk, rfl, rfl⟩

end EntityStore
