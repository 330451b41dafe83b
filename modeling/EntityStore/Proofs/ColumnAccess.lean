import Mathlib
import EntityStore.Proofs.Addresses
import EntityStore.Proofs.Queries
import EntityStore.Proofs.Writes

/-!
# Columns and entities show the same values

A component is reached in two ways: through the location of its entity, and through the columns of a
chunk, where the handle of the entity stands beside it. In a sound store both find the same value,
as a value and as bytes.
-/
namespace EntityStore

namespace View
variable {v : View} {j p : Nat} {x : Value} {kind : Kind} {t : TypeCode} {vs : List Value}

lemma Fits.exists_cell (h : v.Fits) {r : Row} (hr : v.chunk.rows[p]? = some r)
    (hj : j < v.layout.columns.length) : ∃ x, r.cell j = some x := by
  have hlen := h.shaped.rows r (List.mem_of_getElem? hr)
  cases j with
  | zero => exact ⟨_, rfl⟩
  | succ j => exact ⟨_, List.getElem?_eq_getElem (by omega)⟩

lemma Fits.column_eq (h : v.Fits) (hk : v.layout.kinds[j]? = some kind) :
    v.column j = .ok (v.chunk.column j) := by
  rw [View.column, Layout.columnRange_eq (Layout.sizes_of_kinds hk) h.room]
  rfl

end View

lemma Layout.indexOf_eq_some {l : Layout} {t : TypeCode} {j : Nat}
    (h : l.codes.Pairwise (· < ·)) : l.indexOf t = some j ↔ l.codes[j]? = some t := by
  refine ⟨getElem?_of_indexOf, fun hj => ?_⟩
  obtain ⟨hlt, hget⟩ := List.getElem?_eq_some_iff.mp hj
  rw [indexOf_eq h, List.idxOf?_eq_some_iff]
  have hnodup : l.codes.Nodup := h.imp TypeCode.ne_of_lt
  exact ⟨hlt, hget, fun i hi heq => hi.ne (hnodup.getElem_inj_iff.mp (heq.trans hget.symm))⟩

lemma Archetype.Packed.fits {a : Archetype} (h : a.Packed) {k : Nat} {v : View}
    (hv : a.view? k = some v) : v.Fits := by
  obtain ⟨c, hc, rfl⟩ := Option.map_eq_some_iff.mp hv
  exact ⟨h.shaped c (List.mem_of_getElem? hc), h.length_chunk hc⟩

namespace World
variable {w : World} {h : Handle} {l : Location} {t : TypeCode} {a : Archetype} {r : Row} {v : View}
  {id i j k p : Nat} {c : Registration} {x : Value} {kind : Kind}

lemma Sound.fits (hs : w.Sound) (hv : w.view? id k = some (a, v)) : v.Fits := by
  obtain ⟨ha, hc, hl⟩ := view_eq_some hv
  exact (hs.catalogue.packed id a ha).fits (by rw [Archetype.view?, hc, Option.map_some, ← hl])

lemma view_of_row (hp : a.Packed) (ha : w.catalogue.get? id = some a) (hr : a.rows[i]? = some r) :
    ∃ v, w.view? id (i / a.capacity) = some (a, v) ∧ v.chunk.rows[i % a.capacity]? = some r := by
  rw [Archetype.getElem?_rows hp] at hr
  obtain ⟨c, hc, hrow⟩ := Option.bind_eq_some_iff.mp hr
  refine ⟨⟨a.layout, c⟩, ?_, hrow⟩
  simp only [view?, ha, Option.bind_some, Archetype.view?, hc, Option.map_some]

lemma Sound.registered (hs : w.Sound) (ha : w.catalogue.get? id = some a)
    (hc : a.layout.columns[j]? = some c) :
    w.registry.registration c.code = .ok c ∧ a.layout.indexOf c.code = some j := by
  obtain ⟨columns, hr, hn⟩ := hs.catalogue.drafted id a ha
  obtain ⟨hcolumns, -⟩ := Archetype.new_eq_ok hn
  obtain rfl : a.layout.columns = columns := hcolumns
  refine ⟨Registry.registration_of_mem hr (List.mem_of_getElem? hc), ?_⟩
  exact (Layout.indexOf_eq_some (hs.ascending ha)).mpr (by simp [Layout.codes, hc])

theorem component_at (hs : w.Sound) (ha : w.catalogue.get? id = some a)
    (hr : a.rows[i]? = some r) (t : TypeCode) :
    w.component r.handle t = .ok ((a.layout.indexOf t).bind r.cell) := by
  have hp := hs.catalogue.packed id a ha
  simp only [component, hs.location ha hr, Catalogue.get_eq_ok.mpr ha]
  cases hj : a.layout.indexOf t with
  | none => rfl
  | some j =>
    obtain ⟨v, hv, hrow⟩ := view_of_row hp ha hr
    have hl := (view_eq_some hv).2.2
    obtain ⟨x, hx⟩ := (hs.fits hv).exists_cell hrow (by rw [hl]; exact Layout.indexOf_lt hj)
    simp only [Archetype.cell, (Archetype.row_eq_ok hp).mpr hr, hx, Except.map, Option.bind_some]

end World

end EntityStore
