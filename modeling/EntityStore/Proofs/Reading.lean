import Mathlib
import EntityStore.World.Components
import EntityStore.Proofs.Entry

/-!
# Reading components

Reading a component by its code finds what the entry of the entity has for the code, and under the
code of the handle column the handle itself.
-/
namespace EntityStore.World

variable {w : World} {h : Handle} {l : Location} {t : TypeCode} {a : Archetype} {r : Row}

/-- Where the component of a stored entity stands, if it has one. -/
inductive Cell (a : Archetype) (r : Row) (t : TypeCode) : Prop
  | missing (hi : a.layout.indexOf t = none)
      (hf : (a.labelled r).find? (fun e => e.1.code = t) = none) : Cell a r t
  | there {j : Nat} {c : Registration} {v : Value} (hi : a.layout.indexOf t = some (j + 1))
      (hc : a.layout.columns.tail[j]? = some c) (hv : r.values[j]? = some v)
      (hf : (a.labelled r).find? (fun e => e.1.code = t) = some (c, v)) : Cell a r t

lemma cell_cases {reg : Registry} {s : Settings} {id : Nat} (hd : a.Drafted reg s id)
    (hlen : r.values.length + 1 = a.layout.columns.length) (ht : t ≠ .entity) : Cell a r t := by
  obtain ⟨first, cs, hcols, hfirst, -⟩ := hd.columns
  have hne : first.code ≠ t := by
    rw [Registry.code_of_registration hfirst]
    exact Ne.symm ht
  have hfind := Archetype.find_labelled hd.pairwise_codes hcols hne r
  cases hi : a.layout.indexOf t with
  | none => exact .missing hi (by rw [hfind, hi]; rfl)
  | some i =>
    rw [hi, Option.bind_some] at hfind
    have hlt := Layout.indexOf_lt hi
    have hpos : i ≠ 0 := by
      rintro rfl
      have hget := Layout.getElem?_of_indexOf hi
      simp [Layout.codes, hcols, hne] at hget
    obtain ⟨j, rfl⟩ := Nat.exists_eq_succ_of_ne_zero hpos
    have hj : j < a.layout.columns.tail.length := by
      simp only [List.length_tail]
      omega
    have hjv : j < r.values.length := by
      simp only [List.length_tail] at hj
      omega
    refine .there hi (List.getElem?_eq_getElem hj) (List.getElem?_eq_getElem hjv) ?_
    rw [hfind, Nat.succ_sub_one, Archetype.labelled, List.getElem?_zip_eq_some]
    exact ⟨List.getElem?_eq_getElem hj, List.getElem?_eq_getElem hjv⟩

lemma Sound.cell (hs : w.Sound) {id i : Nat} (ha : w.catalogue.get? id = some a)
    (hr : a.rows[i]? = some r) (ht : t ≠ .entity) : Cell a r t :=
  cell_cases (hs.catalogue.drafted _ a ha)
    ((hs.catalogue.packed _ a ha).length_values (List.mem_of_getElem? hr)) ht

theorem component_eq (hs : w.Sound) (h : Handle) (ht : t ≠ .entity) :
    w.component h t = (w.entry h).map fun es => pick es t := by
  unfold component
  cases hl : w.handles.location h with
  | error f =>
    rw [entry, entryAt_of_error hl]
    rfl
  | ok m =>
    cases m with
    | none =>
      rw [entry_of_unplaced hl]
      rfl
    | some l =>
      obtain ⟨a, r, ha, hp, hr, hh⟩ := hs.get hl
      rw [entry_of_row ha hl hr]
      simp only [Catalogue.get_eq_ok.mpr ha, Except.map, pick]
      cases hs.cell ha hr ht with
      | missing hi hf => simp only [hi, hf, Option.map_none]
      | there hi hc hv hf =>
        simp only [hi, hf, Archetype.cell, (Archetype.row_eq_ok hp).mpr hr, Row.cell, hv,
          Option.map_some]

/-- Under the code of the handle column every stored entity has its own handle. -/
theorem component_entity (hs : w.Sound) (hl : w.handles.location h = .ok (some l)) :
    w.component h .entity = .ok (some h.value) := by
  obtain ⟨a, r, ha, hp, hr, rfl⟩ := hs.get hl
  obtain ⟨first, cs, hcols, hfirst, -⟩ := (hs.catalogue.drafted _ a ha).columns
  have hi : a.layout.indexOf .entity = some 0 := by
    rw [Layout.indexOf_eq (hs.catalogue.drafted _ a ha).pairwise_codes, Layout.codes, hcols,
      List.map_cons, Registry.code_of_registration hfirst, List.idxOf?_cons]
    simp
  simp only [component, hl, Catalogue.get_eq_ok.mpr ha, hi, Archetype.cell,
    (Archetype.row_eq_ok hp).mpr hr, Row.cell, Except.map]

end EntityStore.World
