import Mathlib
import EntityStore.World.Placement
import EntityStore.Proofs.Archetype
import EntityStore.Proofs.Ascending
import EntityStore.Proofs.Capacity
import EntityStore.Proofs.Registry

/-!
# Archetypes drawn up for a list of types

`Drafted` says that an archetype, its entities left out, is what the registry and the settings make
of its own signature. It stays so when rows come and go and when the registry grows.
-/
namespace EntityStore

namespace Archetype
variable {a b : Archetype} {r r' : Registry} {s : Settings} {id : Nat} {ts : List TypeCode}

/-- What a new archetype has been checked for. -/
lemma new_spec {columns : List Registration} (h : Archetype.new id columns s = .ok a) :
    ∃ first rest, columns = first :: rest ∧ columns.length ≤ s.maxTypes ∧ first.code = .entity ∧
      Ascending.validate (rest.map Registration.code) = .ok () ∧
      Layout.new columns s.bufferSize = .ok a.layout ∧
      a = { id, layout := a.layout, maxChunks := s.maxChunks } := by
  unfold Archetype.new at h
  split at h
  next => simp at h
  next first rest =>
    split_ifs at h with hmax hfirst
    cases hv : Ascending.validate (rest.map Registration.code) with
    | error f => simp [hv] at h
    | ok u =>
      simp only [hv] at h
      obtain ⟨l, hl, rfl⟩ := ok_of_map h
      exact ⟨first, rest, rfl, not_lt.mp hmax, not_not.mp hfirst, hv, hl, rfl⟩

lemma new_eq_ok {columns : List Registration} (h : Archetype.new id columns s = .ok a) :
    a.layout.columns = columns ∧ 2 ≤ a.capacity ∧ Ascending.validate a.signature = .ok () ∧
      a = { id, layout := a.layout, maxChunks := s.maxChunks } := by
  obtain ⟨first, rest, rfl, -, -, hv, hl, ha⟩ := new_spec h
  obtain ⟨hcols, hcap⟩ := Layout.new_eq_ok hl
  refine ⟨hcols, hcap, ?_, ha⟩
  rwa [signature, codes, Layout.codes, hcols, List.map_cons, List.tail_cons]

lemma codes_of_new {columns : List Registration} (h : Archetype.new id columns s = .ok a) :
    a.codes = .entity :: a.signature := by
  obtain ⟨first, rest, rfl, -, hfirst, -, hl, -⟩ := new_spec h
  rw [signature, codes, Layout.codes, (Layout.new_eq_ok hl).1, List.map_cons, List.tail_cons,
    hfirst]

/-- The archetype is made for its own types. -/
def Drafted (r : Registry) (s : Settings) (id : Nat) (a : Archetype) : Prop :=
  ∃ columns, r.registrations (.entity :: a.signature) = .ok columns ∧
    Archetype.new id columns s = .ok a.blank

lemma Drafted.of_blank (h : a.Drafted r s id) (hb : b.blank = a.blank) : b.Drafted r s id := by
  obtain ⟨columns, hr, hn⟩ := h
  exact ⟨columns, signature_of_blank hb ▸ hr, hb ▸ hn⟩

lemma Drafted.extend (h : a.Drafted r s id) (he : r.Extends r') : a.Drafted r' s id := by
  obtain ⟨columns, hr, hn⟩ := h
  exact ⟨columns, he.registrations hr, hn⟩

lemma Drafted.roomy (h : a.Drafted r s id) : 2 ≤ a.capacity := by
  obtain ⟨columns, -, hn⟩ := h
  exact (new_eq_ok hn).2.1

lemma Drafted.maxChunks (h : a.Drafted r s id) : a.maxChunks = s.maxChunks := by
  obtain ⟨columns, -, hn⟩ := h
  exact congrArg Archetype.maxChunks (new_eq_ok hn).2.2.2

lemma Drafted.id_eq (h : a.Drafted r s id) : a.id = id := by
  obtain ⟨columns, -, hn⟩ := h
  exact congrArg Archetype.id (new_eq_ok hn).2.2.2

lemma Drafted.ascending (h : a.Drafted r s id) :
    TypeCode.entity ∉ a.signature ∧ a.signature.Pairwise (· < ·) := by
  obtain ⟨columns, -, hn⟩ := h
  exact Ascending.validate_eq_ok.mp (new_eq_ok hn).2.2.1

lemma Drafted.codes (h : a.Drafted r s id) : a.codes = .entity :: a.signature := by
  obtain ⟨columns, -, hn⟩ := h
  exact codes_of_new (a := a.blank) hn

lemma Drafted.pairwise_codes (h : a.Drafted r s id) : a.codes.Pairwise (· < ·) := by
  rw [h.codes]
  exact Ascending.pairwise_cons_entity h.ascending.1 h.ascending.2

lemma Drafted.columns (h : a.Drafted r s id) :
    ∃ first rest, a.layout.columns = first :: rest ∧ r.registration .entity = .ok first ∧
      r.registrations a.signature = .ok rest := by
  obtain ⟨columns, hr, hn⟩ := h
  have hcols : a.layout.columns = columns := (new_eq_ok hn).1
  cases Registry.registrations_eq_ok.mp hr with
  | cons hfirst hrest =>
    exact ⟨_, _, hcols, hfirst, Registry.registrations_eq_ok.mpr hrest⟩

lemma Drafted.code_ne (h : a.Drafted r s id) {c : Registration} (hc : c ∈ a.layout.columns.tail) :
    c.code ≠ .entity := by
  obtain ⟨first, rest, hcols, -, hrest⟩ := h.columns
  rw [hcols, List.tail_cons] at hc
  intro he
  apply h.ascending.1
  rw [← he, ← Registry.codes_of_registrations hrest]
  exact List.mem_map_of_mem hc

end Archetype

/-- A draft is an archetype for exactly the given types, without entities. -/
theorem World.draft_eq_ok {w : World} {ts : List TypeCode} {a : Archetype}
    (h : w.draft ts = .ok a) :
    a.Drafted w.registry w.settings w.catalogue.nextId ∧ a.signature = ts ∧ a.chunks = [] ∧
      a.count = 0 := by
  unfold World.draft at h
  cases hr : w.registry.registrations (.entity :: ts) with
  | error f => simp [hr] at h
  | ok columns =>
    rw [hr] at h
    obtain ⟨hcols, -, -, ha⟩ := Archetype.new_eq_ok h
    have hsig : a.signature = ts := by
      rw [Archetype.signature, Archetype.codes, Layout.codes, hcols,
        Registry.codes_of_registrations hr, List.tail_cons]
    have hchunks : a.chunks = [] := by rw [ha]
    have hcount : a.count = 0 := by rw [ha]
    have hblank : a.blank = a := by
      rw [ha]
      rfl
    exact ⟨⟨columns, hsig ▸ hr, hblank ▸ h⟩, hsig, hchunks, hcount⟩

end EntityStore
