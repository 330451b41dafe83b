import Mathlib
import EntityStore.World.Placement
import EntityStore.Proofs.Catalogue
import EntityStore.Proofs.Components
import EntityStore.Proofs.Draft
import EntityStore.Proofs.HandleTable
import EntityStore.Proofs.Placed

/-!
# Sound stores

A store is sound if its archetypes are made for their types, densely packed and indexed, and if the
locations of the handles are where the archetypes hold them. This module has what each change of
the catalogue means for soundness and for the entries of the archetypes.
-/
namespace EntityStore

/-- The handles of an archetype in storage order, each with its components. -/
def Archetype.entries (a : Archetype) : Entries (List (Registration × Value)) :=
  a.rows.map fun r => (r.handle, a.labelled r)

namespace Archetype
variable {a b : Archetype}

lemma entries_congr (hr : b.rows = a.rows) (hb : b.blank = a.blank) : b.entries = a.entries := by
  simp only [entries, hr, labelled_of_layout (layout_of_blank hb)]

lemma entries_append {r : Row} (hr : b.rows = a.rows ++ [r]) (hb : b.blank = a.blank) :
    b.entries = a.entries ++ [(r.handle, a.labelled r)] := by
  simp only [entries, hr, labelled_of_layout (layout_of_blank hb), List.map_append, List.map_cons,
    List.map_nil]

lemma entries_swapRemove {i : Nat} (hr : b.rows = swapRemove a.rows i) (hb : b.blank = a.blank) :
    b.entries = swapRemove a.entries i := by
  simp only [entries, hr, labelled_of_layout (layout_of_blank hb), map_swapRemove]

lemma fst_entries (a : Archetype) : a.entries.map Prod.fst = a.rows.map Row.handle := by
  simp [entries, Function.comp_def]

lemma length_entries (a : Archetype) : a.entries.length = a.rows.length := by
  simp [entries]

lemma getElem?_entries {i : Nat} {r : Row} (hi : a.rows[i]? = some r) :
    a.entries[i]? = some (r.handle, a.labelled r) := by
  simp [entries, hi]

end Archetype

namespace Catalogue
variable {c c' : Catalogue} {a b : Archetype} {id : Nat} {r r' : Registry} {s : Settings}

/-- What is stored in the archetype of a number, in order. -/
def entries (c : Catalogue) (id : Nat) : Entries (List (Registration × Value)) :=
  (c.get? id).elim [] Archetype.entries

/-- The handles in the archetype of a number, in order. -/
def roster (c : Catalogue) : Nat → List Handle := handlesOf c.entries

lemma entries_of_get (ha : c.get? id = some a) : c.entries id = a.entries := by
  rw [entries, ha]
  rfl

lemma roster_of_get (ha : c.get? id = some a) : c.roster id = a.rows.map Row.handle := by
  rw [roster, handlesOf, entries_of_get ha, Archetype.fst_entries]

lemma get_of_roster {h : Handle} {i : Nat} (hi : (c.roster id)[i]? = some h) :
    ∃ a row, c.get? id = some a ∧ a.rows[i]? = some row ∧ row.handle = h := by
  cases ha : c.get? id with
  | none => simp [roster, handlesOf, entries, ha] at hi
  | some a =>
    rw [roster_of_get ha, List.getElem?_map] at hi
    obtain ⟨row, hrow, hh⟩ := Option.map_eq_some_iff.mp hi
    exact ⟨a, row, rfl, hrow, hh⟩

lemma roster_congr (h : c'.entries = c.entries) : c'.roster = c.roster := by
  rw [roster, roster, h]

lemma entries_of_update (h : c'.get? = Function.update c.get? id (some a)) :
    c'.entries = Function.update c.entries id a.entries := by
  funext i
  by_cases hi : i = id
  · subst hi
    rw [Function.update_self, entries, h, Function.update_self]
    rfl
  · rw [Function.update_of_ne hi, entries, h, Function.update_of_ne hi, entries]

lemma entries_set (hb : c.get? id = some b) (a : Archetype) :
    (c.set id a).entries = Function.update c.entries id a.entries :=
  entries_of_update (get_set hb a)

lemma entries_set_same (hb : c.get? id = some b) (he : a.entries = b.entries) :
    (c.set id a).entries = c.entries := by
  rw [entries_set hb, he, ← entries_of_get hb, Function.update_eq_self]

lemma roster_set (hb : c.get? id = some b) (a : Archetype) :
    (c.set id a).roster = Function.update c.roster id (a.rows.map Row.handle) := by
  rw [roster, entries_set hb, handlesOf_update, Archetype.fst_entries, roster]

/-- Every archetype is made for its types and densely packed, and can be found. -/
structure Sound (r : Registry) (s : Settings) (c : Catalogue) : Prop where
  valid : c.Valid
  drafted : ∀ id a, c.get? id = some a → a.Drafted r s id
  packed : ∀ id a, c.get? id = some a → a.Packed

namespace Sound

lemma extend (h : c.Sound r s) (he : r.Extends r') : c.Sound r' s :=
  ⟨h.valid, fun id a ha => (h.drafted id a ha).extend he, h.packed⟩

lemma set (h : c.Sound r s) (hb : c.get? id = some b) (hblank : a.blank = b.blank)
    (hp : a.Packed) : (c.set id a).Sound r s := by
  have hsig := Archetype.signature_of_blank hblank
  refine ⟨valid_set h.valid hb hsig, fun i x hx => ?_, fun i x hx => ?_⟩
  all_goals
    rw [get_set hb] at hx
    by_cases hi : i = id
  · subst hi
    obtain rfl : a = x := by simpa using hx
    exact (h.drafted i b hb).of_blank hblank
  · rw [Function.update_of_ne hi] at hx
    exact h.drafted i x hx
  · subst hi
    obtain rfl : a = x := by simpa using hx
    exact hp
  · rw [Function.update_of_ne hi] at hx
    exact h.packed i x hx

lemma add (h : c.Sound r s) (ha : c.add a = .ok c') (hd : a.Drafted r s c.nextId)
    (hp : a.Packed) : c'.Sound r s := by
  obtain ⟨-, hget, hvalid, -, -⟩ := add_spec h.valid ha
  refine ⟨hvalid, fun i x hx => ?_, fun i x hx => ?_⟩
  all_goals
    rw [hget] at hx
    by_cases hi : i = c.nextId
  · subst hi
    obtain rfl : a = x := by simpa using hx
    exact hd
  · rw [Function.update_of_ne hi] at hx
    exact h.drafted i x hx
  · subst hi
    obtain rfl : a = x := by simpa using hx
    exact hp
  · rw [Function.update_of_ne hi] at hx
    exact h.packed i x hx

lemma recycle (h : c.Sound r s) (id : Nat) :
    (c.recycle id).Sound r s ∧ (c.recycle id).entries = c.entries := by
  cases ha : c.get? id with
  | none =>
    have hr : c.recycle id = c := by simp [Catalogue.recycle, ha]
    rw [hr]
    exact ⟨h, rfl⟩
  | some a =>
    obtain ⟨hvalid, hget⟩ := recycle_spec h.valid ha
    refine ⟨⟨hvalid, fun i x hx => h.drafted i x (get_of_recycle hx),
      fun i x hx => h.packed i x (get_of_recycle hx)⟩, ?_⟩
    by_cases he : a.isEmpty = true
    · have hrows : a.rows = [] := (h.packed id a ha).isEmpty.mp he
      funext i
      rw [entries, entries, hget, if_pos he]
      by_cases hi : i = id
      · subst hi
        simp [ha, Archetype.entries, hrows]
      · rw [Function.update_of_ne hi]
    · rw [recycle_of_not_empty ha he]

end Sound

lemma entries_add (h : c.Valid) (ha : c.add a = .ok c') (hrows : a.rows = []) :
    c'.entries = c.entries := by
  obtain ⟨hnone, hget, -⟩ := add_spec h ha
  have he : a.entries = c.entries c.nextId := by
    rw [entries, hnone, Archetype.entries, hrows]
    rfl
  rw [entries_of_update hget, he, Function.update_eq_self]

end Catalogue

namespace World

structure Sound (w : World) : Prop where
  registry : w.registry.Valid
  chunks : 1 ≤ w.settings.maxChunks
  catalogue : w.catalogue.Sound w.registry w.settings
  placed : Placed w.handles.location w.catalogue.roster

variable {w : World} {h : Handle} {l : Location} {i id : Nat}

lemma Sound.get (hs : w.Sound) (hl : w.handles.location h = .ok (some l)) :
    ∃ a r, w.catalogue.get? l.archetype = some a ∧ a.Packed ∧ a.rows[l.index]? = some r ∧
      r.handle = h := by
  have hi := (hs.placed h l.archetype l.index).mp hl
  obtain ⟨a, r, ha, hr, hh⟩ := Catalogue.get_of_roster hi
  exact ⟨a, r, ha, hs.catalogue.packed _ a ha, hr, hh⟩

lemma Sound.location (hs : w.Sound) {a : Archetype} {r : Row}
    (ha : w.catalogue.get? id = some a) (hr : a.rows[i]? = some r) :
    w.handles.location r.handle = .ok (some ⟨id, i⟩) := by
  rw [hs.placed, Catalogue.roster_of_get ha, List.getElem?_map, hr]
  rfl

end World

end EntityStore
