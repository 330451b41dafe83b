import Mathlib
import EntityStore.Chunk.Borrow
import EntityStore.Proofs.Edits

/-!
# Writing through views of a chunk

A view is written one column at a time, a set of borrowed columns one request at a time. Each grant
rewrites the chunk, and the traffic of a list of requests is that of those granted.
-/
namespace EntityStore

variable {t : TypeCode}

/-- The traffic of editing a column by its number, if that is granted. -/
def View.traffic (v : View) (j : Nat) (e : Edit) (version : UInt32) : Traffic :=
  match v.editColumn j e version, v.layout.kinds[j]? with
  | .ok _, some k => e.traffic k (v.chunk.column j)
  | _, _ => 0

def View.trafficAt (v : View) (k : Kind) (t : TypeCode) (e : Edit) (version : UInt32) : Traffic :=
  match View.columnAs v.layout k t with
  | some j => v.traffic j e version
  | none => 0

def Borrows.traffic (b : Borrows) : List Borrows.Request → Traffic
  | [] => 0
  | r :: rs =>
      match r.edit with
      | none =>
          match b.share r.kind r.code with
          | none => b.traffic rs
          | some (_, b) => b.traffic rs
      | some e =>
          match b.claim r.kind r.code e with
          | none => b.traffic rs
          | some (_, b') => b.view.trafficAt r.kind r.code e b.version + b'.traffic rs

namespace View
variable {v : View} {j : Nat} {k : Kind} {e : Edit} {version : UInt32} {d : View.Edited}

lemma rewritten_editColumn (hc : v.chunk.Shaped v.layout.columns.length)
    (h : v.editColumn j e version = .ok d) :
    ∃ k, v.layout.kinds[j]? = some k ∧ Chunk.Rewritten version v.layout v.chunk d.chunk
      (d.replaced.map (k, ·)) (v.traffic j e version) := by
  obtain ⟨i, k, rfl, hk, hchunk, hreplaced⟩ := editColumn_eq_ok h
  refine ⟨k, hk, ?_⟩
  rw [hchunk, hreplaced, traffic, h, hk]
  exact Chunk.rewritten_editColumn hc hk e version

lemma columnAs_eq_some {l : Layout} (h : columnAs l k t = some j) : l.kinds[j]? = some k := by
  obtain ⟨-, hk⟩ := Option.filter_eq_some_iff.mp h
  simpa using hk

lemma columnAs_lt {l : Layout} (h : columnAs l k t = some j) : j < l.columns.length :=
  Layout.indexOf_lt (Option.filter_eq_some_iff.mp h).1

lemma rewritten_editComponents (hc : v.chunk.Shaped v.layout.columns.length)
    (h : v.editComponents k t e version = some d) :
    Chunk.Rewritten version v.layout v.chunk d.chunk (d.replaced.map (k, ·))
      (v.trafficAt k t e version) := by
  obtain ⟨j, hj, hd⟩ := Option.bind_eq_some_iff.mp h
  cases hedit : v.editColumn j e version with
  | error f => simp [hedit, Except.toOption] at hd
  | ok d' =>
    obtain rfl : d' = d := by simpa [hedit, Except.toOption] using hd
    obtain ⟨k', hk', hr⟩ := rewritten_editColumn hc hedit
    rw [columnAs_eq_some hj] at hk'
    rw [trafficAt, hj, Option.some.inj hk']
    exact hr

end View

namespace Borrows
variable {b b' : Borrows} {j : Nat} {k : Kind} {vs : List Value} {e : Edit} {d : View.Edited}

@[simp] lemma view_mark (b : Borrows) (i : Nat) : (b.mark i).view = b.view := rfl

@[simp] lemma version_mark (b : Borrows) (i : Nat) : (b.mark i).version = b.version := rfl

lemma take_eq_some {writing : Bool} : b.take j writing = some b' ↔
    b.claimed j = false ∧ (writing = true → j ≠ 0 ∧ b.shared j = false) ∧
      b' = b.mark (if writing then 2 * j + 1 else 2 * j) := by
  unfold take
  cases writing <;> cases b.claimed j <;> cases b.shared j <;> by_cases hj : j = 0 <;>
    simp [hj, eq_comm]

lemma take_kept {writing : Bool} (h : b.take j writing = some b') :
    b'.view = b.view ∧ b'.version = b.version := by
  obtain ⟨-, -, rfl⟩ := take_eq_some.mp h
  exact ⟨rfl, rfl⟩

lemma marks_mark (b : Borrows) (i p : Nat) : (b.mark i).marks[p]? =
    if i = p then if i < 2 * b.view.layout.columns.length then some true else none
    else b.marks[p]? :=
  Vector.getElem?_setIfInBounds

/-- Taking a column for reading claims none, for writing that one. -/
lemma claimed_take {writing : Bool} (h : b.take j writing = some b')
    (hj : j < b.view.layout.columns.length) (i : Nat) :
    b'.claimed i = true ↔ b.claimed i = true ∨ writing = true ∧ i = j := by
  obtain ⟨-, -, rfl⟩ := take_eq_some.mp h
  rw [claimed, marks_mark, claimed]
  cases writing with
  | false => simp [show ¬2 * j = 2 * i + 1 by omega]
  | true =>
    by_cases hij : i = j
    · simp [hij, show 2 * j + 1 < 2 * b.view.layout.columns.length by omega]
    · simp [hij, Ne.symm hij]

lemma shared_take {writing : Bool} (h : b.take j writing = some b')
    (hj : j < b.view.layout.columns.length) (i : Nat) :
    b'.shared i = true ↔ b.shared i = true ∨ writing = false ∧ i = j := by
  obtain ⟨-, -, rfl⟩ := take_eq_some.mp h
  rw [shared, marks_mark, shared]
  cases writing with
  | true => simp [show ¬2 * j + 1 = 2 * i by omega]
  | false =>
    by_cases hij : i = j
    · simp [hij, show j < b.view.layout.columns.length by omega]
    · simp [hij, Ne.symm hij]

lemma share_eq_some : b.share k t = some (vs, b') ↔
    ∃ j, View.columnAs b.view.layout k t = some j ∧ b.take j false = some b' ∧
      b.view.column j = .ok vs := by
  unfold share
  cases hj : View.columnAs b.view.layout k t with
  | none => simp
  | some j =>
    cases htake : b.take j false with
    | none => simp [htake]
    | some c =>
      obtain ⟨hview, -⟩ := take_kept htake
      cases hcol : b.view.column j with
      | error f => simp [htake, hview, hcol]
      | ok us => simp [htake, hview, hcol, and_comm]

/-- A column that could be taken for writing may be written, since it is no handle column. -/
lemma editColumn_of_take {c : Borrows} (h : b.take j true = some c) (e : Edit) (version : UInt32) :
    b.view.editColumn j e version =
      (b.view.column j).map fun _ => b.view.writeColumn j e version := by
  have hj : j ≠ 0 := ((take_eq_some.mp h).2.1 rfl).1
  cases hcolumn : b.view.column j <;> simp [View.editColumn, hcolumn, hj, Except.map]

lemma claim_eq_some : b.claim k t e = some (d, b') ↔
    ∃ j c, View.columnAs b.view.layout k t = some j ∧ b.take j true = some c ∧
      b.view.editColumn j e b.version = .ok d ∧
      b' = { c with view := ⟨c.view.layout, d.chunk⟩ } := by
  unfold claim
  cases hj : View.columnAs b.view.layout k t with
  | none => simp
  | some j =>
    cases htake : b.take j true with
    | none => simp [htake]
    | some c =>
      obtain ⟨hview, -⟩ := take_kept htake
      have hedit := editColumn_of_take htake e b.version
      cases hcolumn : b.view.column j with
      | error f =>
        rw [hcolumn] at hedit
        simp [htake, hview, hcolumn, hedit, Except.map]
      | ok vs =>
        rw [hcolumn] at hedit
        rw [← hview] at hcolumn
        simp only [htake, hcolumn, Option.some.injEq, Prod.mk.injEq]
        obtain ⟨-, -, rfl⟩ := take_eq_some.mp htake
        constructor
        · rintro ⟨rfl, rfl⟩
          exact ⟨j, _, rfl, htake, hedit, rfl⟩
        · rintro ⟨i, c', rfl, htake', hedit', rfl⟩
          obtain rfl := Option.some.inj (htake.symm.trans htake')
          obtain rfl := Except.ok.inj (hedit.symm.trans hedit')
          exact ⟨rfl, rfl⟩

/-- A share changes neither the view nor the version. -/
lemma share_kept (h : b.share k t = some (vs, b')) :
    b'.view = b.view ∧ b'.version = b.version := by
  obtain ⟨j, -, htake, -⟩ := share_eq_some.mp h
  exact take_kept htake

lemma claim_rewritten (hc : b.view.chunk.Shaped b.view.layout.columns.length)
    (h : b.claim k t e = some (d, b')) :
    b'.view.layout = b.view.layout ∧ b'.version = b.version ∧
      Chunk.Rewritten b.version b.view.layout b.view.chunk b'.view.chunk (d.replaced.map (k, ·))
        (b.view.trafficAt k t e b.version) := by
  obtain ⟨j, c, hj, htake, hedit, rfl⟩ := claim_eq_some.mp h
  obtain ⟨-, -, rfl⟩ := take_eq_some.mp htake
  obtain ⟨k', hk', hr⟩ := View.rewritten_editColumn hc hedit
  rw [View.columnAs_eq_some hj] at hk'
  refine ⟨rfl, rfl, ?_⟩
  rw [View.trafficAt, hj, Option.some.inj hk']
  exact hr

/-- Serving requests rewrites the chunk once for each claim that is granted. -/
theorem rewritten_serve {rs : List Request}
    (hc : b.view.chunk.Shaped b.view.layout.columns.length) :
    (b.serve rs).2.2.view.layout = b.view.layout ∧
      Chunk.Rewritten b.version b.view.layout b.view.chunk (b.serve rs).2.2.view.chunk
        (b.serve rs).2.1 (b.traffic rs) := by
  induction rs generalizing b with
  | nil => exact ⟨rfl, Chunk.Rewritten.refl _ _ _⟩
  | cons r rs ih =>
    unfold serve traffic
    cases he : r.edit with
    | none =>
      cases hshare : b.share r.kind r.code with
      | none => simpa only [hshare] using ih hc
      | some vb =>
        obtain ⟨hview, hversion⟩ := share_kept hshare
        have h := ih (b := vb.2) (by rw [hview]; exact hc)
        rw [hview, hversion] at h
        simpa only [hshare] using h
    | some e =>
      cases hclaim : b.claim r.kind r.code e with
      | none => simpa only [hclaim] using ih hc
      | some db =>
        obtain ⟨hlayout, hversion, hr⟩ := claim_rewritten hc hclaim
        obtain ⟨hlayout', hr'⟩ := ih (b := db.2) (by rw [hlayout]; exact hr.shaped hc)
        rw [hlayout] at hlayout'
        rw [hlayout, hversion] at hr'
        simpa only [hclaim] using And.intro hlayout' (hr.trans hr')

end Borrows

end EntityStore
