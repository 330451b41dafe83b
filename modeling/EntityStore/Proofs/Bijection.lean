import Mathlib
import EntityStore.Proofs.Issuing

/-!
# Locations and stored handles correspond

In every session a handle is located at a place exactly if it stands there in the handle column, and
every place below the count of an archetype in use has a handle. No write of components changes a
handle column.
-/
namespace EntityStore

variable {h : Handle} {a : Archetype} {id i : Nat}

namespace Archetype

lemma handleAt_eq_ok (hp : a.Packed) :
    a.handleAt i = .ok h ↔ (a.rows.map Row.handle)[i]? = some h := by
  rw [List.getElem?_map, Option.map_eq_some_iff, handleAt]
  constructor
  · intro hh
    obtain ⟨r, hr, hrh⟩ := ok_of_map hh
    exact ⟨r, (row_eq_ok hp).mp hr, hrh⟩
  · rintro ⟨r, hr, rfl⟩
    rw [(row_eq_ok hp).mpr hr]
    rfl

end Archetype

namespace World
variable {w w' : World} {x : Traffic}

lemma Sound.located_iff (hs : w.Sound) : w.handles.location h = .ok (some ⟨id, i⟩) ↔
    ∃ a, w.catalogue.get? id = some a ∧ i < a.count ∧ a.handleAt i = .ok h := by
  rw [hs.placed]
  constructor
  · intro hi
    obtain ⟨a, r, ha, hr, hh⟩ := Catalogue.get_of_roster hi
    have hp := hs.catalogue.packed _ a ha
    rw [Catalogue.roster_of_get ha] at hi
    refine ⟨a, ha, ?_, (Archetype.handleAt_eq_ok hp).mpr hi⟩
    rw [hp.counted]
    exact (List.getElem?_eq_some_iff.mp hr).1
  · rintro ⟨a, ha, -, hh⟩
    rw [Catalogue.roster_of_get ha]
    exact (Archetype.handleAt_eq_ok (hs.catalogue.packed _ a ha)).mp hh

lemma Sound.handleAt (hs : w.Sound) (ha : w.catalogue.get? id = some a) (hi : i < a.count) :
    ∃ h, a.handleAt i = .ok h := by
  have hp := hs.catalogue.packed _ a ha
  rw [hp.counted] at hi
  refine ⟨_, (Archetype.handleAt_eq_ok hp).mpr (List.getElem?_eq_getElem ?_)⟩
  rwa [List.length_map]

/-- A run of writes keeps the archetypes in use, each with its handle column. -/
lemma Rewrites.columns (hx : Rewrites w x w') (id : Nat) :
    (w'.catalogue.get? id).map (fun a => a.rows.map Row.handle) =
      (w.catalogue.get? id).map fun a => a.rows.map Row.handle := by
  induction hx with
  | refl w => rfl
  | @step w v w' j a b x y hx _ ih =>
    rw [ih, hx.catalogue, Catalogue.get_set hx.found]
    by_cases hj : id = j
    · subst hj
      rw [Function.update_self, hx.found, Option.map_some, Option.map_some, hx.roster]
    · rw [Function.update_of_ne hj]

end World

namespace Session
variable {s : Session}

lemma Strained.ofData_value {l : Option Location} (hs : s.Strained)
    (hl : s.world.handles.location h = .ok l) : Handle.ofData h.value.data = h := by
  obtain ⟨es, hes⟩ := hs.lived
  obtain ⟨hlow, hhigh⟩ := hes.runs.index_bounds hl
  have hspan : Bytes.span 4 = 2 ^ 32 := by decide
  exact Handle.ofData_value (by omega) (by omega)

/-- In every session, locations and stored handles are a bijection: a handle is located at a place
if and only if it stands there, every place of an archetype in use has a handle, the component of a
stored entity under the handle code has the bytes of its own handle and of no other one, and no
write of components changes a location, an archetype in use or a handle column. -/
theorem storage_bijection (hs : s.Strained) :
    (∀ h id i, s.world.handles.location h = .ok (some ⟨id, i⟩) ↔
      ∃ a, s.world.catalogue.get? id = some a ∧ i < a.count ∧ a.handleAt i = .ok h) ∧
    (∀ id a i, s.world.catalogue.get? id = some a → i < a.count → ∃ h, a.handleAt i = .ok h) ∧
    (∀ h l, s.world.handles.location h = .ok (some l) →
      s.world.component h .entity = .ok (some h.value) ∧ Handle.ofData h.value.data = h ∧
        ∀ g m, s.world.handles.location g = .ok (some m) → g.value = h.value → g = h) ∧
    ∀ m : Write, (m.run s.world).handles = s.world.handles ∧
      ∀ id, ((m.run s.world).catalogue.get? id).map (fun a => a.rows.map Row.handle) =
        (s.world.catalogue.get? id).map fun a => a.rows.map Row.handle := by
  have hsound := hs.invariant.sound
  refine ⟨fun h id i => hsound.located_iff, fun id a i ha hi => hsound.handleAt ha hi,
    fun h l hl => ⟨World.component_entity hsound hl, hs.ofData_value hl, fun g m hm hgh => ?_⟩,
    fun m => ?_⟩
  · rw [← hs.ofData_value hl, ← hgh, hs.ofData_value hm]
  have hx := m.rewrites hsound
  exact ⟨hx.handles_eq, hx.columns⟩

theorem storage_bijection_sample :
    sample.world.handles.location ⟨1, 1⟩ = .ok (some ⟨0, 0⟩) ∧
    ∃ a, sample.world.catalogue.get? 0 = some a ∧ 0 < a.count ∧ a.handleAt 0 = .ok ⟨1, 1⟩ := by
  have hl : sample.world.handles.location ⟨1, 1⟩ = .ok (some ⟨0, 0⟩) := by decide +kernel
  exact ⟨hl, ((storage_bijection strained_sample).1 ⟨1, 1⟩ 0 0).mp hl⟩

end Session

end EntityStore
