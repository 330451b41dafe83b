import Mathlib
import EntityStore.Proofs.Session

/-!
# The end of a store

A store is closed archetype by archetype, chunk by chunk and column by column. Column by column or
row by row, the owned values are the same, so closing drops what is stored and nothing else.
-/
namespace EntityStore

open Lifetimes

section Columns
variable {α : Type} {r : Row} {rs : List Row}

lemma owned_flatMap {β : Type} (xs : List β) (f : β → List (Kind × α)) :
    owned (xs.flatMap f) = (xs.map fun x => owned (f x)).sum := by
  induction xs with
  | nil => rfl
  | cons x xs ih => rw [List.flatMap_cons, owned_append, List.map_cons, List.sum_cons, ih]

/-- The values of some rows in the columns from number `j` on. -/
def columnwise (j : Nat) (ks : List Kind) (rs : List Row) : List (Kind × Value) :=
  (ks.zipIdx j).flatMap fun kj => (rs.filterMap fun r => r.cell kj.2).map fun v => (kj.1, v)

lemma columnwise_cons (j : Nat) (k : Kind) (ks : List Kind) (rs : List Row) :
    columnwise j (k :: ks) rs =
      (rs.filterMap fun r => r.cell j).map (fun v => (k, v)) ++ columnwise (j + 1) ks rs := by
  rw [columnwise, List.zipIdx_cons, List.flatMap_cons, columnwise]

lemma owned_columnwise_singleton (j : Nat) (ks : List Kind) (r : Row) :
    owned (columnwise (j + 1) ks [r]) = owned (ks.zip (r.values.drop j)) := by
  induction ks generalizing j with
  | nil => rfl
  | cons k ks ih =>
    rw [columnwise_cons, owned_append, ih]
    cases hv : r.values[j]? with
    | none =>
      have hlen : r.values.length ≤ j := List.getElem?_eq_none_iff.mp hv
      simp [Row.cell, hv, List.drop_eq_nil_of_le hlen,
        List.drop_eq_nil_of_le (Nat.le_succ_of_le hlen)]
    | some v =>
      obtain ⟨hlt, rfl⟩ := List.getElem?_eq_some_iff.mp hv
      rw [List.drop_eq_getElem_cons hlt, List.zip_cons_cons, owned_cons (k, r.values[j])]
      simp [Row.cell, hv]

lemma owned_columnwise_cons (j : Nat) (ks : List Kind) (r : Row) (rs : List Row) :
    owned (columnwise j ks (r :: rs)) =
      owned (columnwise j ks [r]) + owned (columnwise j ks rs) := by
  induction ks generalizing j with
  | nil => rfl
  | cons k ks ih =>
    have hsplit : (r :: rs).filterMap (fun r => r.cell j) =
        [r].filterMap (fun r => r.cell j) ++ rs.filterMap fun r => r.cell j :=
      List.filterMap_append (l := [r])
    rw [columnwise_cons, columnwise_cons, columnwise_cons, owned_append, owned_append, owned_append,
      ih, hsplit, List.map_append, owned_append]
    abel

/-- Column by column there are the same owned values as row by row. -/
theorem owned_columnwise (ks : List Kind) (rs : List Row) :
    owned (columnwise 1 ks rs) = rowsStock ks rs := by
  induction rs with
  | nil =>
    have hnil : ∀ j, owned (columnwise j ks []) = 0 := by
      intro j
      rw [columnwise, owned_flatMap]
      simp
    exact hnil 1
  | cons r rs ih =>
    rw [owned_columnwise_cons, ih, rowsStock_cons, owned_columnwise_singleton 0, List.drop_zero]

end Columns

lemma Archetype.owned_values {a : Archetype} {r : Registry} {s : Settings} {id : Nat}
    (hr : r.Valid) (hd : a.Drafted r s id) : owned a.values = a.stock := by
  obtain ⟨name, hname⟩ := hr.entity
  obtain ⟨first, cs, hcols, hfirst, -⟩ := hd.columns
  obtain rfl := Except.ok.inj (hname.symm.trans hfirst)
  have hkinds : a.layout.kinds = .handle name :: a.layout.kinds.tail := by
    rw [Layout.kinds, hcols]
    rfl
  have hchunk : ∀ c, owned (a.chunkValues c) = rowsStock a.layout.kinds.tail c.rows := by
    intro c
    have hcolumns : a.chunkValues c = columnwise 0 a.layout.kinds c.rows := rfl
    have hnone : owned ((c.rows.filterMap fun r => r.cell 0).map
        fun v => (Kind.handle name, v)) = 0 := by
      apply owned_of_none
      intro v hv
      obtain ⟨u, -, rfl⟩ := List.mem_map.mp hv
      rfl
    rw [hcolumns, hkinds, columnwise_cons, owned_append, hnone, zero_add, List.tail_cons,
      owned_columnwise]
  rw [values, owned_flatMap, stock_eq, rows, rowsStock_flatMap]
  simp only [hchunk]

namespace World
variable {w : World}

theorem events_close (hs : w.Sound) :
    ended w.close.1.events = ended w.lifetimes.events + w.stock ∧
      begun w.close.1.events = begun w.lifetimes.events := by
  have hstock : owned (w.catalogue.archetypes.flatMap Archetype.values) = w.stock := by
    rw [owned_flatMap, stock, Catalogue.total]
    congr 1
    refine List.map_congr_left fun a ha => ?_
    obtain ⟨id, hid⟩ := Catalogue.mem_archetypes.mp ha
    exact Archetype.owned_values hs.registry (hs.catalogue.drafted id a hid)
  have hclose : w.close.1.events =
      w.lifetimes.events ++ dropEvents (w.catalogue.archetypes.flatMap Archetype.values) :=
    congrArg Lifetimes.events (dropAll_eq _ _)
  rw [hclose, ended_append, begun_append, ended_dropEvents, begun_dropEvents, hstock, add_zero]
  exact ⟨rfl, rfl⟩

end World

namespace Session
variable {s : Session}

/-- The record of lives when the store has been closed and all scripts have been given up. -/
def close (s : Session) : Lifetimes := s.scripts.foldl (fun l p => p.discard l) s.world.close.1

lemma events_discards (ps : List Script) (l : Lifetimes) :
    ended (ps.foldl (fun l p => p.discard l) l).events =
        ended l.events + (ps.map fun p => owned (Script.held p.commands)).sum ∧
      begun (ps.foldl (fun l p => p.discard l) l).events = begun l.events := by
  induction ps generalizing l with
  | nil => simp
  | cons p ps ih =>
    obtain ⟨hended, hbegun⟩ := ih (p.discard l)
    have hdiscard : (p.discard l).events = l.events ++ dropEvents (Script.held p.commands) :=
      congrArg Lifetimes.events (dropAll_eq _ _)
    rw [hdiscard, ended_append, ended_dropEvents, add_assoc] at hended
    rw [hdiscard, begun_append, begun_dropEvents, add_zero] at hbegun
    exact ⟨hended, hbegun⟩

theorem events_close (hs : s.world.Sound) :
    ended s.close.events = ended s.world.lifetimes.events + s.world.stock + s.held ∧
      begun s.close.events = begun s.world.lifetimes.events := by
  obtain ⟨hended, hbegun⟩ := World.events_close hs
  obtain ⟨hended', hbegun'⟩ := events_discards s.scripts s.world.close.1
  exact ⟨by rw [close, hended', hended, held], hbegun'.trans hbegun⟩

end Session

end EntityStore
