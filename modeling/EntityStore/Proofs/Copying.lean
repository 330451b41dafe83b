import Mathlib
import EntityStore.Chunk

/-!
# Rows copied cell by cell

A row is copied over another one cell after the other, from its own chunk or from another. When all
cells have been copied the one row stands where the other one was.
-/
namespace EntityStore

lemma modify_of_getElem? {α : Type} {xs : List α} {k : Nat} {x : α} (h : xs[k]? = some x)
    (f : α → α) : xs.modify k f = xs.set k (f x) := by
  rw [List.modify_eq_set_getElem?, h]
  rfl

namespace Row
variable {r s : Row}

def takeCells (r s : Row) (n : Nat) : Row := (List.range n).foldl (fun r j => r.takeCell s j) r

lemma takeCells_succ (r s : Row) (n : Nat) :
    r.takeCells s (n + 1) = (r.takeCells s n).takeCell s n := by
  rw [takeCells, List.range_succ, List.foldl_append]
  rfl

lemma takeCells_eq (h : r.values.length = s.values.length) {n : Nat} (hn : n ≤ s.values.length) :
    r.takeCells s (n + 1) = ⟨s.handle, s.values.take n ++ r.values.drop n⟩ := by
  induction n with
  | zero => rfl
  | succ n ih =>
    have hlt : n < s.values.length := hn
    have hold : (r.values.drop n).set 0 s.values[n] = s.values[n] :: r.values.drop (n + 1) := by
      rw [List.drop_eq_getElem_cons (h ▸ hlt), List.set_cons_zero]
    have hset : (s.values.take n ++ r.values.drop n).set n s.values[n] =
        s.values.take (n + 1) ++ r.values.drop (n + 1) := by
      rw [List.set_append_right _ _ (List.length_take_le _ _), List.length_take_of_le hlt.le,
        Nat.sub_self, hold, List.take_add_one, List.getElem?_eq_getElem hlt, List.append_assoc]
      rfl
    rw [takeCells_succ, ih hlt.le, takeCell, List.getElem?_eq_getElem hlt, Option.elim_some, hset]

theorem takeCells_all (h : r.values.length = s.values.length) :
    r.takeCells s (s.values.length + 1) = s := by
  rw [takeCells_eq h le_rfl, List.take_length, ← h, List.drop_length, List.append_nil]

end Row

namespace Chunk
variable {c source : Chunk} {r : Row} {v : UInt32} {p q : Nat}

def replace (c : Chunk) (position : Nat) (r : Row) (version : UInt32) : Chunk :=
  { c.stampAll version with rows := c.rows.set position r }

@[simp] lemma rows_replace (c : Chunk) (p : Nat) (r : Row) (v : UInt32) :
    (c.replace p r v).rows = c.rows.set p r := rfl

@[simp] lemma stamps_replace (c : Chunk) (p : Nat) (r : Row) (v : UInt32) :
    (c.replace p r v).stamps = c.stamps.map fun _ => v := rfl

lemma copyCell_eq (hr : source.rows[p]? = some r) (c : Chunk) (j : Nat) : c.copyCell source p q j =
    { c with rows := c.rows.modify q fun d => d.takeCell r j } := by
  rw [copyCell, hr]

lemma stamps_copyCell (c source : Chunk) (p q j : Nat) :
    (c.copyCell source p q j).stamps = c.stamps := by
  unfold copyCell
  split <;> rfl

lemma copyFrom_succ (c source : Chunk) (n p q : Nat) :
    c.copyFrom source (n + 1) p q = (c.copyFrom source n p q).copyCell source p q n := by
  rw [copyFrom, List.range_succ, List.foldl_append]
  rfl

lemma copyWithin_succ (c : Chunk) (n p q : Nat) :
    c.copyWithin (n + 1) p q = (c.copyWithin n p q).copyCell (c.copyWithin n p q) p q n := by
  rw [copyWithin, List.range_succ, List.foldl_append]
  rfl

lemma stamps_copyFrom (c source : Chunk) (n p q : Nat) :
    (c.copyFrom source n p q).stamps = c.stamps := by
  induction n with
  | zero => rfl
  | succ n ih => rw [copyFrom_succ, stamps_copyCell, ih]

lemma stamps_copyWithin (c : Chunk) (n p q : Nat) : (c.copyWithin n p q).stamps = c.stamps := by
  induction n with
  | zero => rfl
  | succ n ih => rw [copyWithin_succ, stamps_copyCell, ih]

lemma copyFrom_eq (hr : source.rows[p]? = some r) (c : Chunk) (n q : Nat) :
    c.copyFrom source n p q = { c with rows := c.rows.modify q fun d => d.takeCells r n } := by
  induction n with
  | zero =>
    have hid : (fun d : Row => d.takeCells r 0) = id := rfl
    rw [hid, List.modify_id]
    rfl
  | succ n ih =>
    rw [copyFrom_succ, ih, copyCell_eq hr, List.modify_modify_eq]
    simp only [Row.takeCells_succ]
    rfl

/-- The row that is copied stays as it is meanwhile. -/
lemma copyWithin_eq (hr : c.rows[p]? = some r) (hpq : p ≠ q) (n : Nat) :
    c.copyWithin n p q = { c with rows := c.rows.modify q fun d => d.takeCells r n } := by
  induction n with
  | zero =>
    have hid : (fun d : Row => d.takeCells r 0) = id := rfl
    rw [hid, List.modify_id]
    rfl
  | succ n ih =>
    have hsame : (c.copyWithin n p q).rows[p]? = some r := by
      simpa only [ih, List.getElem?_modify_ne _ _ hpq.symm] using hr
    rw [copyWithin_succ, copyCell_eq hsame, ih, List.modify_modify_eq]
    simp only [Row.takeCells_succ]
    rfl

/-- Where all cells of a row have been copied, the row stands. -/
lemma replace_eq {d : Row} (hd : c.rows[q]? = some d) (hlen : d.values.length = r.values.length) :
    { c with rows := c.rows.modify q fun d => d.takeCells r (r.values.length + 1) }.stampAll v =
      c.replace q r v := by
  have hrows : (c.rows.modify q fun d => d.takeCells r (r.values.length + 1)) = c.rows.set q r := by
    rw [modify_of_getElem? hd, Row.takeCells_all hlen]
  rw [hrows]
  rfl

end Chunk

end EntityStore
