import Mathlib
import EntityStore.World.Queries
import EntityStore.Proofs.HandleHistory
import EntityStore.Proofs.Retyping
import EntityStore.Proofs.Uniqueness

/-!
# Queries are exact

Types are looked up in three ways: in the list of types of an entity, one by one in the columns of
its archetype, and by merging two ascending lists. All of them find the same, so a query for
archetypes finds exactly the entities that have all types of one list and none of the other.
-/
namespace EntityStore

def Ascending.Names (ts : List TypeCode) : Prop :=
  TypeCode.entity ∉ ts ∧ ts.Pairwise (· < ·)

instance (ts : List TypeCode) : Decidable (Ascending.Names ts) :=
  inferInstanceAs (Decidable (TypeCode.entity ∉ ts ∧ ts.Pairwise (· < ·)))

lemma Ascending.validate_eq (ts : List TypeCode) :
    Ascending.Names ts ∧ validate ts = .ok () ∨
      ¬ Ascending.Names ts ∧ ∃ f, validate ts = .error f := by
  cases hv : validate ts with
  | ok u => exact .inl ⟨validate_eq_ok.mp hv, rfl⟩
  | error f =>
    refine .inr ⟨fun hn => ?_, f, rfl⟩
    rw [validate_eq_ok.mpr hn] at hv
    cases hv

namespace World
variable {w : World} {h : Handle} {id : Nat} {a : Archetype} {t : TypeCode} {ts us : List TypeCode}

lemma Sound.ascending (hs : w.Sound) (ha : w.catalogue.get? id = some a) :
    a.codes.Pairwise (· < ·) := by
  obtain ⟨hne, hsig⟩ := (hs.catalogue.drafted _ a ha).ascending
  rw [hs.codes ha]
  exact Ascending.pairwise_cons_entity hne hsig

lemma Sound.mem_codes (hs : w.Sound) (ha : w.catalogue.get? id = some a) (ht : t ≠ .entity) :
    t ∈ a.codes ↔ t ∈ a.signature := by
  rw [hs.codes ha, List.mem_cons, or_iff_right ht]

lemma Sound.hasAll_iff (hs : w.Sound) (ha : w.catalogue.get? id = some a)
    (hts : Ascending.Names ts) : a.hasAll ts = true ↔ ∀ t ∈ ts, t ∈ a.signature := by
  rw [Archetype.hasAll, Ascending.includesAll_iff (hs.ascending ha) hts.2]
  exact forall₂_congr fun t ht => hs.mem_codes ha (ne_of_mem_of_not_mem ht hts.1)

lemma Sound.lacksAll_iff (hs : w.Sound) (ha : w.catalogue.get? id = some a)
    (hts : Ascending.Names ts) : a.lacksAll ts = true ↔ ∀ t ∈ ts, t ∉ a.signature := by
  rw [Archetype.lacksAll, Bool.not_eq_true', ← Bool.not_eq_true,
    Ascending.intersects_iff (hs.ascending ha) hts.2]
  push Not
  constructor
  · intro hall t ht hsig
    exact hall t ((hs.mem_codes ha (ne_of_mem_of_not_mem ht hts.1)).mpr hsig) ht
  · intro hall t hcodes ht
    exact hall t ht ((hs.mem_codes ha (ne_of_mem_of_not_mem ht hts.1)).mp hcodes)

lemma Sound.exists_types (hs : w.Sound) (hv : w.handles.isValid h = true) :
    ∃ ts, w.typesOf h = .ok ts := by
  rcases hs.typed hv with ⟨-, hts⟩ | ⟨l, a, -, -, hts⟩
  · exact ⟨_, hts⟩
  · exact ⟨_, hts⟩

/-- Where an entity of the given types is stored, if it has any. -/
lemma Sound.stored (hs : w.Sound) (hus : w.typesOf h = .ok us) :
    w.handles.location h = .ok none ∧ us = [] ∨
      ∃ l a, w.handles.location h = .ok (some l) ∧ w.catalogue.get? l.archetype = some a ∧
        w.catalogue.get l.archetype = .ok a ∧ us = a.signature := by
  have hv : w.handles.isValid h = true := by
    rw [HandleTable.isValid_iff]
    cases hl : w.handles.location h with
    | ok m => exact ⟨m, rfl⟩
    | error f => simp [typesOf, hl] at hus
  rcases hs.typed hv with ⟨hl, hts⟩ | ⟨l, a, hl, ha, hts⟩
  · exact .inl ⟨hl, Except.ok.inj (hus.symm.trans hts)⟩
  · exact .inr ⟨l, a, hl, ha, Catalogue.get_eq_ok.mpr ha, Except.ok.inj (hus.symm.trans hts)⟩

theorem hasComponent_eq (hs : w.Sound) (hus : w.typesOf h = .ok us) (ht : t ≠ .entity) :
    w.hasComponent h t = .ok (decide (t ∈ us)) := by
  unfold hasComponent
  rcases hs.stored hus with ⟨hl, rfl⟩ | ⟨l, a, hl, hget, ha, rfl⟩
  · simp [hl]
  · have hmem : a.has t = decide (t ∈ a.signature) := by
      rw [Bool.eq_iff_iff, Archetype.has_iff (hs.ascending hget), hs.mem_codes hget ht,
        decide_eq_true_iff]
    simp only [hl, ha, Except.map, hmem]

theorem hasComponents_eq (hs : w.Sound) (hus : w.typesOf h = .ok us) (hts : Ascending.Names ts) :
    w.hasComponents h ts = .ok (decide (∀ t ∈ ts, t ∈ us)) := by
  unfold hasComponents
  rw [Ascending.validate_eq_ok.mpr hts]
  rcases hs.stored hus with ⟨hl, rfl⟩ | ⟨l, a, hl, hget, ha, rfl⟩
  · have hempty : ts.isEmpty = decide (∀ t ∈ ts, t ∈ ([] : List TypeCode)) := by
      rw [Bool.eq_iff_iff, List.isEmpty_iff, decide_eq_true_iff, List.eq_nil_iff_forall_not_mem]
      simp
    simp only [hl, hempty]
  · have hall : a.hasAll ts = decide (∀ t ∈ ts, t ∈ a.signature) := by
      rw [Bool.eq_iff_iff, hs.hasAll_iff hget hts, decide_eq_true_iff]
    simp only [hl, ha, Except.map, hall]

theorem component_isSome (hs : w.Sound) (hus : w.typesOf h = .ok us) (ht : t ≠ .entity) :
    ∃ o, w.component h t = .ok o ∧ (o.isSome = true ↔ t ∈ us) := by
  obtain ⟨es, he, rfl⟩ := typesOf_eq_ok hs hus
  exact ⟨pick es t, by rw [component_eq hs h ht, he]; rfl, pick_isSome⟩

/-- All questions about the types of an entity have the same answer. -/
theorem types_tfae (hs : w.Sound) (hus : w.typesOf h = .ok us) (hts : Ascending.Names ts) :
    [w.hasComponents h ts = .ok true, ∀ t ∈ ts, w.hasComponent h t = .ok true,
      ∀ t ∈ ts, ∃ v, w.component h t = .ok (some v), ts ⊆ us].TFAE := by
  have hne : ∀ t ∈ ts, t ≠ .entity := fun t ht => ne_of_mem_of_not_mem ht hts.1
  tfae_have 1 ↔ 4 := by
    rw [hasComponents_eq hs hus hts, Except.ok.injEq, decide_eq_true_iff]
    rfl
  tfae_have 2 ↔ 4 := forall₂_congr fun t ht => by
    rw [hasComponent_eq hs hus (hne t ht), Except.ok.injEq, decide_eq_true_iff]
  tfae_have 3 ↔ 4 := forall₂_congr fun t ht => by
    obtain ⟨o, ho, hmem⟩ := component_isSome hs hus (hne t ht)
    rw [ho, ← hmem, Option.isSome_iff_exists]
    simp only [Except.ok.injEq]
  tfae_finish

lemma mem_matching (hs : w.Sound) {all none : List TypeCode} {as : List Archetype}
    (hall : Ascending.Names all) (hnone : Ascending.Names none)
    (hm : w.matching all none = .ok as) : a ∈ as ↔ w.catalogue.get? a.id = some a ∧
      (∀ t ∈ all, t ∈ a.signature) ∧ ∀ t ∈ none, t ∉ a.signature := by
  simp only [matching, Ascending.validate_eq_ok.mpr hall, Ascending.validate_eq_ok.mpr hnone,
    Except.map, Except.ok.injEq] at hm
  rw [← hm, List.mem_filter, Catalogue.mem_archetypes, Bool.and_eq_true]
  constructor
  · rintro ⟨⟨id, ha⟩, hhas, hlacks⟩
    rw [(hs.catalogue.drafted id a ha).id_eq]
    exact ⟨ha, (hs.hasAll_iff ha hall).mp hhas, (hs.lacksAll_iff ha hnone).mp hlacks⟩
  · rintro ⟨ha, hhas, hlacks⟩
    exact ⟨⟨_, ha⟩, (hs.hasAll_iff ha hall).mpr hhas, (hs.lacksAll_iff ha hnone).mpr hlacks⟩

lemma pairwise_matching (hs : w.Sound) {all none : List TypeCode} {as : List Archetype}
    (hm : w.matching all none = .ok as) : as.Pairwise fun a b => a.id < b.id := by
  have hall : w.catalogue.archetypes.Pairwise fun a b => a.id < b.id :=
    Catalogue.pairwise_archetypes fun i j a b hij ha hb => by
      rwa [(hs.catalogue.drafted i a ha).id_eq, (hs.catalogue.drafted j b hb).id_eq]
  unfold matching at hm
  cases hva : Ascending.validate all with
  | error f => simp [hva] at hm
  | ok u =>
    cases hvn : Ascending.validate none with
    | error f => simp [hva, hvn, Except.map] at hm
    | ok u =>
      simp only [hva, hvn, Except.map, Except.ok.injEq] at hm
      rw [← hm]
      exact hall.filter _

lemma matching_error_iff {all none : List TypeCode} : (∃ f, w.matching all none = .error f) ↔
    ¬ (Ascending.Names all ∧ Ascending.Names none) := by
  unfold matching
  rcases Ascending.validate_eq all with ⟨hall, hva⟩ | ⟨hall, f, hva⟩
  · rcases Ascending.validate_eq none with ⟨hnone, hvn⟩ | ⟨hnone, f, hvn⟩
    · simp [hva, hvn, hall, hnone, Except.map]
    · simp [hva, hvn, hnone, Except.map]
  · simp [hva, hall]

lemma names_of_matching {all none : List TypeCode} {as : List Archetype}
    (hm : w.matching all none = .ok as) : Ascending.Names all ∧ Ascending.Names none := by
  by_contra hnot
  obtain ⟨f, hf⟩ := matching_error_iff.mpr hnot
  rw [hm] at hf
  cases hf

end World

namespace Archetype

/-- The handles in the handle columns of the chunks. -/
def handles (a : Archetype) : List Handle := a.views.flatMap View.handles

lemma handles_eq (a : Archetype) : a.handles = a.rows.map Row.handle := by
  rw [handles, views, List.flatMap_map, rows, List.map_flatMap]
  rfl

end Archetype

namespace World
variable {w : World} {h : Handle} {id : Nat} {a : Archetype} {as : List Archetype}

lemma Sound.mem_handles (hs : w.Sound) (ha : w.catalogue.get? id = some a) :
    h ∈ a.handles ↔ ∃ i, w.handles.location h = .ok (some ⟨id, i⟩) := by
  rw [a.handles_eq, List.mem_iff_getElem?]
  refine exists_congr fun i => ?_
  rw [hs.placed, Catalogue.roster_of_get ha]

/-- No handle is met twice on a walk over archetypes. -/
lemma Sound.nodup_handles (hs : w.Sound) (has : ∀ a ∈ as, w.catalogue.get? a.id = some a)
    (hids : as.Pairwise fun a b => a.id < b.id) : (as.flatMap Archetype.handles).Nodup := by
  rw [List.nodup_flatMap]
  refine ⟨fun a ha => ?_, hids.imp_of_mem fun {a b} ha hb hab h hha hhb => ?_⟩
  · rw [a.handles_eq, ← Catalogue.roster_of_get (has a ha), List.nodup_iff_getElem?_ne_getElem?]
    intro i j hij hj heq
    have hi := List.getElem?_eq_getElem (hij.trans hj)
    exact hij.ne (hs.placed.unique hi (heq ▸ hi)).2
  · obtain ⟨i, hi⟩ := (hs.mem_handles (has a ha)).mp hha
    obtain ⟨j, hj⟩ := (hs.mem_handles (has b hb)).mp hhb
    exact hab.ne (congrArg Location.archetype (Option.some.inj (Except.ok.inj (hi.symm.trans hj))))

lemma mem_handles_matching (hs : w.Sound) (ht : w.catalogue.Tidy) {all none : List TypeCode}
    (hm : w.matching all none = .ok as) : h ∈ as.flatMap Archetype.handles ↔
      (∃ us, w.typesOf h = .ok us ∧ us ≠ []) ∧ w.hasComponents h all = .ok true ∧
        ∀ t ∈ none, w.hasComponent h t = .ok false := by
  obtain ⟨hall, hnone⟩ := names_of_matching hm
  have hne : ∀ t ∈ none, t ≠ .entity := fun t ht => ne_of_mem_of_not_mem ht hnone.1
  rw [List.mem_flatMap]
  constructor
  · rintro ⟨a, ha, hh⟩
    obtain ⟨hget, hhas, hlacks⟩ := (mem_matching hs hall hnone hm).mp ha
    obtain ⟨i, hl⟩ := (hs.mem_handles hget).mp hh
    have hus : w.typesOf h = .ok a.signature := by
      simp only [typesOf, hl, Catalogue.get_eq_ok.mpr hget, Except.map]
    refine ⟨⟨_, hus, ht.named _ a hget⟩, ?_, fun t ht => ?_⟩
    · rw [hasComponents_eq hs hus hall, decide_eq_true hhas]
    · rw [hasComponent_eq hs hus (hne t ht), decide_eq_false (hlacks t ht)]
  · rintro ⟨⟨us, hus, hstored⟩, hhas, hlacks⟩
    rw [hasComponents_eq hs hus hall, Except.ok.injEq, decide_eq_true_iff] at hhas
    have hlack : ∀ t ∈ none, t ∉ us := fun t ht => by
      have hfalse := hlacks t ht
      rwa [hasComponent_eq hs hus (hne t ht), Except.ok.injEq, decide_eq_false_iff_not] at hfalse
    rcases hs.stored hus with ⟨-, hnil⟩ | ⟨l, a, hl, ha, -, rfl⟩
    · exact absurd hnil hstored
    · have hid : a.id = l.archetype := (hs.catalogue.drafted _ a ha).id_eq
      exact ⟨a, (mem_matching hs hall hnone hm).mpr ⟨hid.symm ▸ ha, hhas, hlack⟩,
        (hs.mem_handles ha).mpr ⟨l.index, hl⟩⟩

end World

namespace Session
variable {s : Session}

/-- In every session a query fails exactly if one of the lists does not stand for a set of
component types. Otherwise it finds the archetypes in use that have every type of the first list and
no type of the second, once each and by increasing number, and the handles stored in these are,
once each, those of the entities with components for which the same holds. An entity has all types
of a list if it has each of them, if a component is found under each, or if each is listed among its
types: there is always an answer, and it is the same. -/
theorem queries_are_exact (hs : s.Strained) (all none : List TypeCode) :
    ((∃ f, s.world.matching all none = .error f) ↔
      ¬ (Ascending.Names all ∧ Ascending.Names none)) ∧
    (∀ as, s.world.matching all none = .ok as →
      (as.Pairwise fun a b => a.id < b.id) ∧
      (∀ a, a ∈ as ↔ s.world.catalogue.get? a.id = some a ∧
        (∀ t ∈ all, t ∈ a.signature) ∧ ∀ t ∈ none, t ∉ a.signature) ∧
      (as.flatMap Archetype.handles).Nodup ∧
      ∀ h, h ∈ as.flatMap Archetype.handles ↔
        (∃ us, s.world.typesOf h = .ok us ∧ us ≠ []) ∧ s.world.hasComponents h all = .ok true ∧
          ∀ t ∈ none, s.world.hasComponent h t = .ok false) ∧
    ∀ h ts, s.world.handles.isValid h = true → Ascending.Names ts →
      ∃ us, s.world.typesOf h = .ok us ∧
        (∃ b, s.world.hasComponents h ts = .ok b) ∧
        (∀ t ∈ ts, (∃ b, s.world.hasComponent h t = .ok b) ∧ ∃ o, s.world.component h t = .ok o) ∧
        [s.world.hasComponents h ts = .ok true, ∀ t ∈ ts, s.world.hasComponent h t = .ok true,
          ∀ t ∈ ts, ∃ v, s.world.component h t = .ok (some v), ts ⊆ us].TFAE := by
  have hsound := hs.invariant.sound
  refine ⟨World.matching_error_iff, fun as hm => ?_, fun h ts hv hts => ?_⟩
  · obtain ⟨hall, hnone⟩ := World.names_of_matching hm
    have hmem : ∀ a, a ∈ as ↔ _ := fun a => World.mem_matching hsound hall hnone hm
    have hids := World.pairwise_matching hsound hm
    exact ⟨hids, hmem, hsound.nodup_handles (fun a ha => ((hmem a).mp ha).1) hids,
      fun h => World.mem_handles_matching hsound hs.tidy hm⟩
  · obtain ⟨us, hus⟩ := hsound.exists_types hv
    refine ⟨us, hus, ⟨_, World.hasComponents_eq hsound hus hts⟩, fun t ht => ?_,
      World.types_tfae hsound hus hts⟩
    have hne : t ≠ .entity := ne_of_mem_of_not_mem ht hts.1
    obtain ⟨o, ho, -⟩ := World.component_isSome hsound hus hne
    exact ⟨⟨_, World.hasComponent_eq hsound hus hne⟩, o, ho⟩

def mark : Kind := { name := "Mark", size := 4, align := 4, initial := .bytes [0, 0, 0, 0] }

/-- Entities with notes, with marks and with both, one with neither, and one that was destroyed. -/
def mixed : Session := blank.run
  [.register note .none, .register mark .none, .operate (.createWith [⟨1⟩]),
    .operate (.createWith [⟨1⟩, ⟨2⟩]), .operate (.createWith [⟨2⟩]), .operate .create,
    .operate (.destroy ⟨0, 1⟩), .operate (.createWith [⟨1⟩])]

theorem queries_are_exact_sample :
    (∃ f, mixed.world.matching [⟨2⟩, ⟨1⟩] [] = .error f) ∧
    (∃ as, mixed.world.matching [⟨1⟩] [⟨2⟩] = .ok as ∧
      as.flatMap Archetype.handles = [⟨0, 2⟩] ∧ (as.flatMap Archetype.handles).Nodup) ∧
    mixed.world.hasComponents ⟨0, 2⟩ [⟨1⟩] = .ok true ∧
    mixed.world.hasComponent ⟨0, 2⟩ ⟨2⟩ = .ok false ∧
    ∃ us, mixed.world.typesOf ⟨1, 1⟩ = .ok us ∧ [⟨1⟩, ⟨2⟩] ⊆ us := by
  have hreach : mixed.Strained := strained_blank.run _
  have hquery : ∃ as, mixed.world.matching [⟨1⟩] [⟨2⟩] = .ok as ∧
      as.flatMap Archetype.handles = [⟨0, 2⟩] := by
    have hfound : (mixed.world.matching [⟨1⟩] [⟨2⟩]).map (List.flatMap Archetype.handles) =
        .ok [⟨0, 2⟩] := by decide +kernel
    exact ok_of_map hfound
  have hvalid : mixed.world.handles.isValid ⟨1, 1⟩ = true := by decide +kernel
  have hboth : mixed.world.hasComponents ⟨1, 1⟩ [⟨1⟩, ⟨2⟩] = .ok true := by decide +kernel
  obtain ⟨as, hm, hhandles⟩ := hquery
  obtain ⟨-, hnodup, hmem⟩ := ((queries_are_exact hreach [⟨1⟩] [⟨2⟩]).2.1 as hm).2
  obtain ⟨-, hhas, hlacks⟩ := (hmem ⟨0, 2⟩).mp (by rw [hhandles]; exact List.mem_singleton_self _)
  obtain ⟨us, hus, -, -, htfae⟩ :=
    (queries_are_exact hreach [] []).2.2 ⟨1, 1⟩ [⟨1⟩, ⟨2⟩] hvalid (by decide)
  exact ⟨(queries_are_exact hreach _ _).1.mpr (by decide), ⟨as, hm, hhandles, hnodup⟩, hhas,
    hlacks _ (List.mem_singleton_self _), us, hus, (htfae.out 0 3).mp hboth⟩

end Session

end EntityStore
