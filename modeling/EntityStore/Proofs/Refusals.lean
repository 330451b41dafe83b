import Mathlib
import EntityStore.Proofs.Admission
import EntityStore.Proofs.Queries

/-!
# When creation, addition and removal are refused

Creating an entity with components and adding components need one more entity of the resulting
types, and are refused for whatever stands first against that. Taking components away leaves types
that are acceptable, so that only room can be missing, and ending an entity needs nothing at all.
-/
namespace EntityStore

lemma HandleTable.Chronicle.exists_allocate {t : HandleTable} {es : List Event}
    (hc : Chronicle t es) (hroom : t.live < HandleTable.limit) :
    ∃ q, t.allocate = .ok q := by
  unfold HandleTable.allocate
  cases hhead : t.freeHead with
  | some i =>
    obtain ⟨v, next, hslot⟩ := hc.freeHead hhead
    simp only [hslot]
    exact ⟨_, rfl⟩
  | none =>
    obtain ⟨is, hchain, hsize⟩ := hc.chain
    -- without a free slot every one is taken
    have hnil : is = [] := by
      have hlinked := hchain.linked
      rw [hhead] at hlinked
      cases hlinked
      rfl
    rw [hnil, List.length_nil, Nat.add_zero] at hsize
    rw [hsize] at hroom
    simp only [not_le.mpr hroom, if_false]
    exact ⟨_, rfl⟩

namespace Ascending
variable {as bs : List TypeCode}

lemma validate_union (ha : validate as = .ok ()) (hb : validate bs = .ok ()) :
    validate (union as bs) = .ok () := by
  rw [validate_eq_ok] at ha hb ⊢
  refine ⟨fun hmem => ?_, pairwise_union ha.2 hb.2⟩
  rcases mem_union.mp hmem with hmem | hmem
  · exact ha.1 hmem
  · exact hb.1 hmem

lemma validate_difference (ha : validate as = .ok ()) (bs : List TypeCode) :
    validate (difference as bs) = .ok () := by
  rw [validate_eq_ok] at ha ⊢
  exact ⟨fun hmem => ha.1 ((difference_sublist as bs).subset hmem), pairwise_difference bs ha.2⟩

end Ascending

namespace World
variable {w v w' : World} {h : Handle} {ts current : List TypeCode} {f : Fault} {α : Type}
  {r : Option Failure}

lemma failure_eq_none {r : EStateM.Result Failure World α} :
    failure r = none ↔ ∃ x w, r = .ok x w := by
  cases r <;> simp [failure]

lemma failure_eq_none_unit {r : EStateM.Result Failure World Unit} :
    failure r = none ↔ ∃ w, r = .ok () w := by
  cases r <;> simp [failure]

lemma failure_eq_some {r : EStateM.Result Failure World α} {e : Failure} :
    failure r = some e ↔ ∃ w, r = .error e w := by
  cases r <;> simp [failure]

lemma Judged.of_handles {handles : HandleTable} (hj : Judged { w with handles } ts r) :
    w.Judged ts r := by
  have hacceptable : Acceptable { w with handles } ts → w.Acceptable ts :=
    fun ha => ⟨ha.known, ha.types, ha.bytes⟩
  cases hj with
  | admitted ha => exact .admitted ⟨hacceptable ha.toAcceptable, ha.entities, ha.memory⟩
  | interrupted => exact .interrupted
  | refused hf =>
    refine .refused ?_
    cases hf with
    | types hf =>
      refine .types ?_
      cases hf with
      | unknown hf => exact .unknown hf
      | types hk ht => exact .types hk ht
      | bytes hk ht hb => exact .bytes hk ht hb
    | entities ht ha hsig hfull => exact .entities (hacceptable ht) ha hsig hfull
    | memory ht hcount hroom hq => exact .memory (hacceptable ht) hcount hroom hq

section
variable (hw : w.Healthy) (hlim : w.catalogue.Limited)
include hw hlim

lemma judged_create (hroom : w.entityCount < HandleTable.limit)
    (hv : Ascending.validate ts = .ok ()) (hne : ts ≠ []) :
    w.Judged ts (failure (createWith ts w)) := by
  obtain ⟨es, hes⟩ := hw.chronicle
  obtain ⟨⟨h, handles⟩, ha⟩ := hes.exists_allocate hroom
  have hempty : ts.isEmpty = false := by simpa using hne
  have hl : handles.location h = .ok none := by
    rw [(HandleTable.location_allocate ha).2.1, Function.update_self]
  have hj := judged_insert (hw.allocated ha) hlim hv hne hl
  suffices hstored : Judged { w with handles } ts (failure (createWith ts w)) from
    hstored.of_handles
  simp only [createWith, hv, createEntity, ha, hempty, Bool.false_eq_true, if_false]
  cases hi : insert h ts { w with handles } with
  | ok _ v =>
    rw [hi] at hj
    exact hj
  | error e v =>
    rw [hi] at hj
    cases e with
    | aborted => exact hj
    | refused f =>
      obtain ⟨hhandles, t, ht⟩ := free_insert_refused ha hi
      simp only [hhandles, ht]
      exact hj

/-- A change of types is judged as one more entity of the new types, unless they are the old ones or
there are none. -/
lemma judged_retype {g : List TypeCode → List TypeCode → List TypeCode}
    (hg : ∀ as bs, (g as bs).length = as.length → g as bs = as)
    (hv : Ascending.validate ts = .ok ()) (hc : w.typesOf h = .ok current)
    (hascending : Ascending.validate (g current ts) = .ok ()) (hne : g current ts ≠ [])
    (hdiff : g current ts ≠ current) :
    w.Judged (g current ts) (failure (retype g h ts w)) := by
  have hlength : (g current ts).length ≠ current.length := fun hlen => hdiff (hg _ _ hlen)
  simp only [retype, hv, hc, hlength, if_false]
  exact judged_move hw hlim hascending hne hc hdiff

end

lemma retype_same {g : List TypeCode → List TypeCode → List TypeCode}
    (hv : Ascending.validate ts = .ok ()) (hc : w.typesOf h = .ok current)
    (hsame : g current ts = current) : retype g h ts w = .ok () w := by
  simp only [retype, hv, hc, hsame, if_true]

lemma Sound.validate_types (hs : w.Sound) (hc : w.typesOf h = .ok current) :
    Ascending.validate current = .ok () := by
  obtain ⟨es, he, rfl⟩ := typesOf_eq_ok hs hc
  exact Ascending.validate_eq_ok.mpr (hs.listed he).2

lemma Sound.isValid_iff_types (hs : w.Sound) :
    w.handles.isValid h = true ↔ ∃ current, w.typesOf h = .ok current := by
  refine ⟨hs.exists_types, ?_⟩
  rintro ⟨current, hc⟩
  rw [HandleTable.isValid_iff]
  rcases hs.stored hc with ⟨hl, -⟩ | ⟨l, a, hl, -⟩
  · exact ⟨none, hl⟩
  · exact ⟨some l, hl⟩

lemma Sound.typesOf_eq_error (hs : w.Sound) :
    w.typesOf h = .error f ↔ w.handles.isValid h = false ∧ f = .invalidHandle h := by
  rw [← Bool.not_eq_true, hs.isValid_iff_types]
  cases hc : w.typesOf h with
  | ok current => simp
  | error e =>
    rw [hs.typesOf_error hc]
    simp [eq_comm]

section
variable (hw : w.Healthy) (hlim : w.catalogue.Limited)
include hw hlim

lemma create_refusals (hroom : w.entityCount < HandleTable.limit)
    (hd : failure (createWith ts w) ≠ some .aborted) :
    (failure (createWith ts w) = none ↔
      Ascending.validate ts = .ok () ∧ (ts = [] ∨ w.Admits ts)) ∧
    ∀ f, failure (createWith ts w) = some (.refused f) ↔
      Ascending.validate ts = .error f ∨
        Ascending.validate ts = .ok () ∧ ts ≠ [] ∧ w.Objection ts f := by
  cases hv : Ascending.validate ts with
  | error e => simp [createWith, hv, failure]
  | ok _ =>
    by_cases hne : ts = []
    · obtain ⟨es, hes⟩ := hw.chronicle
      obtain ⟨q, ha⟩ := hes.exists_allocate hroom
      subst hne
      simp [createWith, hv, createEntity, ha, failure]
    · have hj := judged_create hw hlim hroom hv hne
      simp [hne, hj.none_iff hd, hj.refused_iff hd]

lemma add_refusals (hd : failure (addComponents h ts w) ≠ some .aborted) :
    (failure (addComponents h ts w) = none ↔ Ascending.validate ts = .ok () ∧
      ∃ current, w.typesOf h = .ok current ∧ (Ascending.union current ts = current ∨
        w.Admits (Ascending.union current ts))) ∧
    ∀ f, failure (addComponents h ts w) = some (.refused f) ↔
      Ascending.validate ts = .error f ∨ Ascending.validate ts = .ok () ∧
        (w.typesOf h = .error f ∨
          ∃ current, w.typesOf h = .ok current ∧ Ascending.union current ts ≠ current ∧
            w.Objection (Ascending.union current ts) f) := by
  cases hv : Ascending.validate ts with
  | error e => simp [addComponents, retype, hv, failure]
  | ok _ =>
    cases hc : w.typesOf h with
    | error e => simp [addComponents, retype, hv, hc, failure]
    | ok current =>
      by_cases hsame : Ascending.union current ts = current
      · rw [addComponents, retype_same hv hc hsame]
        simp [failure, hsame]
      · have hne : Ascending.union current ts ≠ [] := by
          intro hnil
          refine hsame (hnil.trans (List.eq_nil_of_subset_nil ?_).symm)
          exact hnil ▸ (Ascending.sublist_union current ts).subset
        have hj : w.Judged _ (failure (addComponents h ts w)) :=
          judged_retype hw hlim Ascending.union_of_length hv hc
            (Ascending.validate_union (hw.sound.validate_types hc) hv) hne hsame
        simp [hsame, hj.none_iff hd, hj.refused_iff hd]

end

lemma destroy_eq_ok (hs : w.Sound) :
    (∃ w', destroy h w = .ok () w') ↔ w.handles.isValid h = true := by
  rw [HandleTable.isValid_iff]
  have hd := destroyed hs h
  generalize destroy h w = r at hd
  cases hd with
  | refused hl => exact iff_of_false nofun (by simp [hl])
  | bare hl hf => exact iff_of_true ⟨_, rfl⟩ ⟨_, hl⟩
  | vacated hx hf => exact iff_of_true ⟨_, rfl⟩ ⟨_, hx.placed⟩

/-- The types of an entity are acceptable as long as there are any. -/
lemma Sound.acceptable (hs : w.Sound) (hc : w.typesOf h = .ok current) (hne : current ≠ []) :
    w.Acceptable current := by
  rcases hs.stored hc with ⟨-, hnil⟩ | ⟨l, a, -, ha, -, rfl⟩
  · exact absurd hnil hne
  · exact (hs.catalogue.drafted _ a ha).acceptable hs.registry

lemma Healthy.not_aborted_remove (hw : w.Healthy) :
    failure (removeComponents h ts w) ≠ some .aborted := by
  intro hf
  have hr := removed hw.sound h ts
  rw [eq_error_of_failure hf] at hr
  cases hr with
  | moved hv hc hm =>
    exact Unwound.not_difference hw.sound hc (hm.unwound hw.sound hw.consistent.lends.retained)

section
variable (hw : w.Healthy) (hlim : w.catalogue.Limited) (hv : Ascending.validate ts = .ok ())
  (hc : w.typesOf h = .ok current)
include hw hv hc

/-- Nothing or everything can always be taken away. -/
lemma remove_all_or_nothing
    (hleft : Ascending.difference current ts = [] ∨ Ascending.difference current ts = current) :
    ∃ w', removeComponents h ts w = .ok () w' := by
  by_cases hsame : Ascending.difference current ts = current
  · exact ⟨w, retype_same hv hc hsame⟩
  · have hnil := hleft.resolve_right hsame
    have hlength : ([] : List TypeCode).length ≠ current.length := by
      intro hlen
      exact hsame (hnil.trans (List.eq_nil_of_length_eq_zero hlen.symm).symm)
    simp only [removeComponents, retype, hv, hc, hnil, hlength, if_false]
    rcases hw.sound.stored hc with ⟨-, rfl⟩ | ⟨l, a, hl, -⟩
    · exact absurd rfl hlength
    · obtain ⟨-, -, -, -, v, -, hvacate⟩ := vacate_eq hw.sound hl
      simp only [move, hl, List.isEmpty_nil, if_true, hvacate]
      exact ⟨v, rfl⟩

include hlim

/-- If some components are left, room is all that can be missing. -/
lemma remove_refusals (hne : Ascending.difference current ts ≠ [])
    (hdiff : Ascending.difference current ts ≠ current) :
    w.Acceptable (Ascending.difference current ts) ∧
      (failure (removeComponents h ts w) = none ↔ w.Admits (Ascending.difference current ts)) ∧
      ∀ f, failure (removeComponents h ts w) = some (.refused f) ↔
        w.Objection (Ascending.difference current ts) f := by
  have hcurrent : current ≠ [] := by
    rintro rfl
    exact hne rfl
  have hj : w.Judged _ (failure (removeComponents h ts w)) :=
    judged_retype hw hlim Ascending.difference_of_length hv hc
      (Ascending.validate_difference (hw.sound.validate_types hc) ts) hne hdiff
  exact ⟨(hw.sound.acceptable hc hcurrent).sublist (Ascending.difference_sublist current ts),
    hj.none_iff hw.not_aborted_remove, fun f => hj.refused_iff hw.not_aborted_remove⟩

end

lemma Acceptable.objection_iff (hs : w.Sound) (hlim : w.catalogue.Limited) (ha : w.Acceptable ts) :
    w.Objection ts f ↔
      f = .capacityExceeded .archetypeChunks w.settings.maxChunks ∧
        (∃ id a, w.catalogue.get? id = some a ∧ a.signature = ts ∧
          a.count = a.capacity * w.settings.maxChunks) ∨
      f = .allocationFailed w.pool.chunkSize ∧
        (∀ id a, w.catalogue.get? id = some a → a.signature = ts →
          a.count < a.capacity * w.settings.maxChunks ∧ a.hasRoom = false) ∧
        w.pool.take = .error (.allocationFailed w.pool.chunkSize) := by
  constructor
  · intro hf
    cases hf with
    | types hf => exact absurd ha hf.not_acceptable
    | @entities id a ht hget hsig hfull =>
      refine .inl ⟨rfl, id, a, hget, hsig, le_antisymm ?_ hfull⟩
      have hle := (hs.catalogue.packed _ a hget).count_le.1
      rw [← (hs.catalogue.drafted _ a hget).maxChunks]
      exact hle.trans (Nat.mul_le_mul_left _ (hlim _ a hget))
    | memory ht hcount hroom hq =>
      exact .inr ⟨rfl, fun id a hget hsig => ⟨hcount id a hget hsig, hroom id a hget hsig⟩, hq⟩
  · rintro (⟨rfl, id, a, hget, hsig, hfull⟩ | ⟨rfl, hall, hq⟩)
    · exact .entities ha hget hsig hfull.ge
    · exact .memory ha (fun id a hget hsig => (hall id a hget hsig).1)
        (fun id a hget hsig => (hall id a hget hsig).2) hq

end World

namespace Session
variable {s : Session}

/-- In every session, whether memory is short or not, while there are handles left and no default
fails: an entity with components is created if and only if its types are in order, and there are
none or one more entity can have them. Components are added if and only if the types are in order,
the handle is valid, and the entity has all types already or one more entity can have the union of
both. Otherwise the fault is the first in the order of these conditions. -/
theorem refusals_are_exact (hs : s.Strained) :
    (s.world.entityCount < HandleTable.limit →
      ∀ ts, World.failure (World.createWith ts s.world) ≠ some .aborted →
      ((∃ h w', World.createWith ts s.world = .ok h w') ↔
        (TypeCode.entity ∉ ts ∧ ts.Pairwise (· < ·)) ∧ (ts = [] ∨ s.world.Admits ts)) ∧
      ∀ f, (∃ w', World.createWith ts s.world = .error (.refused f) w') ↔
        (∃ why, f = .invalidArgument why) ∧ Ascending.validate ts = .error f ∨
        (TypeCode.entity ∉ ts ∧ ts.Pairwise (· < ·)) ∧ ts ≠ [] ∧ s.world.Objection ts f) ∧
    ∀ h ts, World.failure (World.addComponents h ts s.world) ≠ some .aborted →
      ((∃ w', World.addComponents h ts s.world = .ok () w') ↔
        (TypeCode.entity ∉ ts ∧ ts.Pairwise (· < ·)) ∧ s.world.handles.isValid h = true ∧
        ∃ current, s.world.typesOf h = .ok current ∧
          (Ascending.union current ts = current ∨
            s.world.Admits (Ascending.union current ts))) ∧
      ∀ f, (∃ w', World.addComponents h ts s.world = .error (.refused f) w') ↔
        (∃ why, f = .invalidArgument why) ∧ Ascending.validate ts = .error f ∨
        (TypeCode.entity ∉ ts ∧ ts.Pairwise (· < ·)) ∧
          (s.world.handles.isValid h = false ∧ f = .invalidHandle h ∨
            ∃ current, s.world.typesOf h = .ok current ∧ Ascending.union current ts ≠ current ∧
              s.world.Objection (Ascending.union current ts) f) := by
  have hw := hs.healthy
  have hlim := hs.limited
  have hinvalid : ∀ ts f, (∃ why, f = .invalidArgument why) ∧ Ascending.validate ts = .error f ↔
      Ascending.validate ts = .error f := by
    refine fun ts f => and_iff_right_of_imp fun hv => ?_
    rcases Ascending.validate_eq_error hv with rfl | ⟨a, b, rfl | rfl⟩ <;> exact ⟨_, rfl⟩
  refine ⟨fun hroom ts hd => ?_, fun h ts hd => ?_⟩
  · simp only [← World.failure_eq_none, ← World.failure_eq_some, ← Ascending.validate_eq_ok,
      hinvalid]
    exact World.create_refusals hw hlim hroom hd
  · have hadd := World.add_refusals hw hlim hd
    simp only [← World.failure_eq_none_unit, ← World.failure_eq_some, ← Ascending.validate_eq_ok,
      hinvalid, ← hw.sound.typesOf_eq_error, hw.sound.isValid_iff_types]
    refine ⟨hadd.1.trans ?_, hadd.2⟩
    exact and_congr_right fun _ => (and_iff_right_of_imp fun ⟨current, hc, _⟩ => ⟨current, hc⟩).symm

/-- Archetypes have one chunk of 256 bytes each. Five entities with a note fill theirs, and a sixth
one has both kinds. -/
def brimming : Session :=
  let settings := (({} : Settings).withChunkSize 256).withMaxChunks 1
  let empty : Session :=
    { world :=
      { registry := Registry.new "Handle", settings, pool := { chunkSize := 256, retain := 0 }
        catalogue := Catalogue.new 32 } }
  empty.run ([.register note .none, .register brittle .none] ++
    List.replicate 5 (.operate (.createWith [⟨1⟩])) ++ [.operate (.createWith [⟨1⟩, ⟨2⟩])])

lemma strained_brimming : brimming.Strained :=
  Strained.run (.create (.create (.maxChunks (.chunkSize .standard 256 (by decide)) 1) rfl)) _

/-- There is no room for another entity with a note, but for one with both kinds, and a third kind
is not registered. -/
theorem refusals_are_exact_brimming :
    brimming.world.Objection [⟨1⟩] (.capacityExceeded .archetypeChunks 1) ∧
    brimming.world.Admits [⟨1⟩, ⟨2⟩] ∧
    (∃ w', World.addComponents ⟨0, 1⟩ [⟨2⟩] brimming.world = .ok () w') ∧
    ∃ w', World.addComponents ⟨0, 1⟩ [⟨3⟩] brimming.world =
      .error (.refused (.outOfRange .componentType 3 3)) w' := by
  obtain ⟨hcreate, hadd⟩ := refusals_are_exact strained_brimming
  have hroom : brimming.world.entityCount < HandleTable.limit := by decide +kernel
  have hfull : World.failure (World.createWith [⟨1⟩] brimming.world) =
      some (.refused (.capacityExceeded .archetypeChunks 1)) := by decide +kernel
  obtain ⟨-, hrefused⟩ := hcreate hroom [⟨1⟩] (by simp [hfull])
  have hobjection : brimming.world.Objection [⟨1⟩] (.capacityExceeded .archetypeChunks 1) := by
    rcases (hrefused _).mp (World.failure_eq_some.mp hfull) with ⟨⟨why, hwhy⟩, -⟩ | ⟨-, -, hf⟩
    · cases hwhy
    · exact hf
  have hboth : World.failure (World.createWith [⟨1⟩, ⟨2⟩] brimming.world) = none := by
    decide +kernel
  obtain ⟨hok, -⟩ := hcreate hroom [⟨1⟩, ⟨2⟩] (by simp [hboth])
  have hadmits := (hok.mp (World.failure_eq_none.mp hboth)).2.resolve_left (by simp)
  have htypes : brimming.world.typesOf ⟨0, 1⟩ = .ok [⟨1⟩] := by rfl
  have hunknown : World.failure (World.addComponents ⟨0, 1⟩ [⟨3⟩] brimming.world) =
      some (.refused (.outOfRange .componentType 3 3)) := by decide +kernel
  have hunion : Ascending.union [⟨1⟩] [⟨2⟩] = [⟨1⟩, ⟨2⟩] := by decide +kernel
  refine ⟨hobjection, hadmits, ?_, World.failure_eq_some.mp hunknown⟩
  exact (hadd ⟨0, 1⟩ [⟨2⟩] (by decide +kernel)).1.mpr
    ⟨by decide, by decide +kernel, [⟨1⟩], htypes, .inr (hunion.symm ▸ hadmits)⟩

/-- In every session, whether memory is short or not: an entity can be ended if and only if its
handle is valid. Of a valid handle components can be taken whenever none or all of them are left
over. Otherwise this is refused only if an archetype for those that are left has as many entities as
it may, or needs another chunk for which there is no memory. Among acceptable types any are
acceptable. -/
theorem removal_hardly_fails (hs : s.Strained) :
    (∀ h, (∃ w', World.destroy h s.world = .ok () w') ↔ s.world.handles.isValid h = true) ∧
    (∀ h ts, s.world.handles.isValid h = true → TypeCode.entity ∉ ts ∧ ts.Pairwise (· < ·) →
      ∃ current left, s.world.typesOf h = .ok current ∧
        (left.Pairwise (· < ·) ∧ ∀ t, t ∈ left ↔ t ∈ current ∧ t ∉ ts) ∧
        (left = [] ∨ left = current → ∃ w', World.removeComponents h ts s.world = .ok () w') ∧
        (left ≠ [] → left ≠ current →
          s.world.Acceptable left ∧
          (∀ e w', World.removeComponents h ts s.world = .error e w' →
            e = .refused (.capacityExceeded .archetypeChunks s.world.settings.maxChunks) ∨
              e = .refused (.allocationFailed s.world.pool.chunkSize)) ∧
          ((∃ w', World.removeComponents h ts s.world =
              .error (.refused
                (.capacityExceeded .archetypeChunks s.world.settings.maxChunks)) w') ↔
            ∃ id a, s.world.catalogue.get? id = some a ∧ a.signature = left ∧
              a.count = a.capacity * s.world.settings.maxChunks) ∧
          ((∃ w', World.removeComponents h ts s.world =
              .error (.refused (.allocationFailed s.world.pool.chunkSize)) w') ↔
            (∀ id a, s.world.catalogue.get? id = some a → a.signature = left →
              a.count < a.capacity * s.world.settings.maxChunks ∧ a.hasRoom = false) ∧
            s.world.pool.take = .error (.allocationFailed s.world.pool.chunkSize)))) ∧
    ∀ ts us, TypeCode.entity ∉ ts ∧ ts.Pairwise (· < ·) →
      TypeCode.entity ∉ us ∧ us.Pairwise (· < ·) → us ⊆ ts → s.world.Acceptable ts →
        s.world.Acceptable us ∧ ∃ a, s.world.draft us = .ok a := by
  have hw := hs.healthy
  have hlim := hs.limited
  refine ⟨fun h => World.destroy_eq_ok hw.sound, fun h ts hvalid hts => ?_,
    fun ts us hts hus hsub ha => ?_⟩
  · obtain ⟨current, hc⟩ := hw.sound.exists_types hvalid
    have hv := Ascending.validate_eq_ok.mpr hts
    have hcurrent := Ascending.validate_eq_ok.mp (hw.sound.validate_types hc)
    refine ⟨current, Ascending.difference current ts, hc,
      ⟨Ascending.pairwise_difference ts hcurrent.2,
        fun t => Ascending.mem_difference hcurrent.2 hts.2⟩,
      World.remove_all_or_nothing hw hv hc, fun hne hdiff => ?_⟩
    obtain ⟨ha, -, hrefused⟩ := World.remove_refusals hw hlim hv hc hne hdiff
    have hobjection := fun f => ha.objection_iff (f := f) hw.sound hlim
    refine ⟨ha, fun e w' he => ?_, ?_, ?_⟩
    · have he' := World.failure_eq_some.mpr ⟨w', he⟩
      cases e with
      | aborted => exact absurd he' hw.not_aborted_remove
      | refused f =>
        rw [hrefused, hobjection] at he'
        rcases he' with ⟨rfl, -⟩ | ⟨rfl, -⟩
        · exact .inl rfl
        · exact .inr rfl
    · rw [← World.failure_eq_some, hrefused, hobjection]
      simp
    · rw [← World.failure_eq_some, hrefused, hobjection]
      simp
  · rw [← Ascending.validate_eq_ok] at hts hus
    have hus' := ha.subset hts hus hsub
    rcases World.draft_cases hw.sound.registry hus with ⟨-, hdraft⟩ | ⟨f, hf, -⟩
    · exact ⟨hus', hdraft⟩
    · exact absurd hus' hf.not_acceptable

/-- The sixth entity cannot give up its second component, because there is no room for another
entity with a note alone. It can give up both, or be ended. -/
theorem removal_hardly_fails_brimming :
    (∃ w', World.removeComponents ⟨5, 1⟩ [⟨2⟩] brimming.world =
      .error (.refused (.capacityExceeded .archetypeChunks 1)) w') ∧
    (∃ id a, brimming.world.catalogue.get? id = some a ∧ (∀ t, t ∈ a.signature ↔ t = ⟨1⟩) ∧
      a.count = a.capacity * 1) ∧
    (∃ w', World.removeComponents ⟨5, 1⟩ [⟨1⟩, ⟨2⟩] brimming.world = .ok () w') ∧
    ∃ w', World.destroy ⟨5, 1⟩ brimming.world = .ok () w' := by
  obtain ⟨hdestroy, hremove, -⟩ := removal_hardly_fails strained_brimming
  have hvalid : brimming.world.handles.isValid ⟨5, 1⟩ = true := by decide +kernel
  have htypes : brimming.world.typesOf ⟨5, 1⟩ = .ok [⟨1⟩, ⟨2⟩] := by rfl
  have hfull : World.failure (World.removeComponents ⟨5, 1⟩ [⟨2⟩] brimming.world) =
      some (.refused (.capacityExceeded .archetypeChunks 1)) := by decide +kernel
  have hrefused := World.failure_eq_some.mp hfull
  refine ⟨hrefused, ?_, ?_, (hdestroy _).mpr hvalid⟩
  · obtain ⟨current, left, hc, ⟨-, hleft⟩, -, hrest⟩ := hremove ⟨5, 1⟩ [⟨2⟩] hvalid (by decide)
    obtain rfl := Except.ok.inj (htypes.symm.trans hc)
    have hmem : ∀ t, t ∈ left ↔ t = ⟨1⟩ := fun t => by
      rw [hleft]
      constructor
      · rintro ⟨hmem, hnot⟩
        simp only [List.mem_cons, List.not_mem_nil, or_false] at hmem hnot
        exact hmem.resolve_right hnot
      · rintro rfl
        decide
    have hne : left ≠ [] := List.ne_nil_of_mem ((hmem ⟨1⟩).mpr rfl)
    have hdiff : left ≠ [⟨1⟩, ⟨2⟩] := by
      rintro rfl
      exact absurd ((hmem ⟨2⟩).mp (by decide)) (by decide)
    obtain ⟨-, -, hiff, -⟩ := hrest hne hdiff
    obtain ⟨id, a, ha, rfl, hcount⟩ := hiff.mp hrefused
    exact ⟨id, a, ha, hmem, hcount⟩
  · obtain ⟨current, left, hc, ⟨-, hleft⟩, hall, -⟩ := hremove ⟨5, 1⟩ [⟨1⟩, ⟨2⟩] hvalid (by decide)
    obtain rfl := Except.ok.inj (htypes.symm.trans hc)
    refine hall (.inl (List.eq_nil_iff_forall_not_mem.mpr fun t ht => ?_))
    obtain ⟨hmem, hnot⟩ := (hleft t).mp ht
    exact hnot hmem

end Session

end EntityStore
