import Mathlib
import EntityStore.Proofs.Closing
import EntityStore.Proofs.Origins

/-!
# Every owned value ends exactly once

Over any run, the owned values that were made as defaults or handed over are those stored, those
held in recorded commands and those that were dropped. Values that are changed in place stand on
both sides, and they stay the values they were: told apart by their origins, the values are the same
without them. Moving an entity or filling a gap drops nothing.
-/
namespace EntityStore

/-- How many values of a kind there are. -/
def tally {α : Type} (k : Kind) (m : Multiset (Kind × α)) : Nat := m.countP fun kv => kv.1 = k

section Tally
variable {α β : Type} {k : Kind}

lemma tally_add (m n : Multiset (Kind × α)) : tally k (m + n) = tally k m + tally k n :=
  Multiset.countP_add ..

lemma tally_map (f : α → β) (m : Multiset (Kind × α)) :
    tally k (m.map (Prod.map id f)) = tally k m := by
  rw [tally, Multiset.countP_map, tally, Multiset.countP_eq_card_filter]
  rfl

lemma tally_entering (x : Traffic) : tally k x.entering = tally k x.1 + tally k x.leaving := by
  rw [Traffic.entering, Traffic.leaving, tally_add, tally_map, tally_map]

end Tally

namespace World
variable {w w' : World} {h : Handle} {ts : List TypeCode}

lemma ended_add (hs : w.Sound) (ha : addComponents h ts w = .ok () w') :
    ended w'.lifetimes.events = ended w.lifetimes.events := by
  have hr := added hs h ts
  rw [ha] at hr
  obtain ⟨es, cs, -, he, hcs, -⟩ := hr.entry hs Ascending.union_of_length
  have hkept : es.filter (fun e =>
      !decide (e.1.code ∈ Ascending.union (es.map fun e => e.1.code) ts)) = [] := by
    rw [List.filter_eq_nil_iff]
    intro e he
    simp [Ascending.mem_union, List.mem_map_of_mem (f := fun e => e.1.code) he]
  rw [hr.events hs Ascending.union_of_length he hcs, hkept, ended_append, ended_append,
    ended_makeEvents, ended_dropEvents, add_zero]
  exact add_zero _

lemma ended_remove (hs : w.Sound) (hr : removeComponents h ts w = .ok () w') :
    ∃ es, w.entry h = .ok es ∧ begun w'.lifetimes.events = begun w.lifetimes.events ∧
      ended w'.lifetimes.events = ended w.lifetimes.events +
        owned (contents (es.filter fun e => decide (e.1.code ∈ ts))) := by
  have hremoved := removed hs h ts
  rw [hr] at hremoved
  obtain ⟨es, cs, hv, he, hcs, -⟩ := hremoved.entry hs Ascending.difference_of_length
  have hmem : ∀ t, t ∈ Ascending.difference (es.map fun e => e.1.code) ts ↔
      t ∈ es.map (fun e => e.1.code) ∧ t ∉ ts := fun t =>
    Ascending.mem_difference (hs.listed he).2.2 (Ascending.validate_eq_ok.mp hv).2
  have hlacking : lacking es cs = [] := by
    apply lacking_eq_nil
    rw [Registry.codes_of_registrations hcs]
    exact fun t ht => ((hmem t).mp ht).1
  have hgone : es.filter (fun e =>
      !decide (e.1.code ∈ Ascending.difference (es.map fun e => e.1.code) ts)) =
      es.filter fun e => decide (e.1.code ∈ ts) := by
    refine List.filter_congr fun e he => ?_
    have hcode := List.mem_map_of_mem (f := fun e => e.1.code) he
    by_cases ht : e.1.code ∈ ts <;> simp [hmem, hcode, ht]
  have hevents := hremoved.events hs Ascending.difference_of_length he hcs
  rw [hlacking, hgone] at hevents
  refine ⟨es, he, ?_, ?_⟩
  · rw [hevents, begun_append, begun_append, begun_makeEvents, begun_dropEvents, add_zero]
    exact add_zero _
  · rw [hevents, ended_append, ended_append, ended_makeEvents, ended_dropEvents, add_zero]

lemma ended_destroy (hs : w.Sound) (hd : destroy h w = .ok () w') :
    ∃ es, w.entry h = .ok es ∧ begun w'.lifetimes.events = begun w.lifetimes.events ∧
      ended w'.lifetimes.events = ended w.lifetimes.events + owned (contents es) := by
  have hdestroyed := destroyed hs h
  rw [hd] at hdestroyed
  cases hdestroyed with
  | bare hl hf => exact ⟨[], entry_of_unplaced hl, rfl, (add_zero _).symm⟩
  | @vacated v t l a b r d hx hf =>
    refine ⟨_, entry_of_row hx.found hx.placed hx.row, ?_, ?_⟩
    · change begun v.lifetimes.events = _
      rw [hx.events, begun_append, begun_dropEvents, add_zero]
    · change ended v.lifetimes.events = _
      rw [hx.events, ended_append, ended_dropEvents, contents]

end World

namespace Session
variable {s : Session}

/-- Changes in place cancel out when values are told apart by their origins. -/
lemma Accounted.identities (h : s.Accounted) :
    identities (s.world.stock + s.held + ended s.world.lifetimes.events) =
      identities (begun s.world.lifetimes.events + s.traffic.1) := by
  have hledger := congrArg EntityStore.identities h
  rw [identities_add, identities_add (begun _), Traffic.identities_entering, ← add_assoc] at hledger
  rw [identities_add (begun _)]
  exact add_right_cancel hledger

/-- Where no value is handed over twice, each is at one place at a time. -/
lemma Strained.count_identities (hs : s.Strained) (hd : s.traffic.Distinct) {x : Kind × Origin}
    (hx : x ∈ identities (begun s.world.lifetimes.events + s.traffic.1)) :
    (identities s.world.stock).count x + (identities s.held).count x +
      (identities (ended s.world.lifetimes.events)).count x = 1 := by
  have hone := Multiset.count_eq_one_of_mem (hs.nodup_identities hd) hx
  rw [← hs.invariant.accounted.identities, identities_add, identities_add, Multiset.count_add,
    Multiset.count_add] at hone
  exact hone

/-- In every session all owned values are accounted for: what is stored, held in recorded commands,
was dropped or was changed in place is what was made as a default, was handed over or came from a
change in place. Hence the numbers for each kind agree. When the store has been closed and all
scripts given up, everything has been dropped. Where callers hand over no value twice, each single
value is stored, held in a command or has been dropped, and only one of these and only once, and at
the end it has been dropped exactly once. Adding types drops nothing; removing types and destroying
an entity drop exactly the components concerned, whatever else moves. -/
theorem owned_values_end_once (hs : s.Strained) :
    s.Accounted ∧
    (∀ k, tally k s.world.stock + tally k s.held + tally k (ended s.world.lifetimes.events) =
      tally k (begun s.world.lifetimes.events) + tally k s.traffic.1) ∧
    ended s.world.lifetimes.events ≤ begun s.world.lifetimes.events + s.traffic.entering ∧
    ended s.close.events + s.traffic.leaving =
      begun s.world.lifetimes.events + s.traffic.entering ∧
    (∀ k, tally k (ended s.close.events) =
      tally k (begun s.world.lifetimes.events) + tally k s.traffic.1) ∧
    (s.traffic.Distinct →
      ∀ x ∈ identities (begun s.world.lifetimes.events + s.traffic.1),
        (identities s.world.stock).count x + (identities s.held).count x +
            (identities (ended s.world.lifetimes.events)).count x = 1 ∧
          (identities (ended s.close.events)).count x = 1) ∧
    (∀ h ts w', World.addComponents h ts s.world = .ok () w' →
      ended w'.lifetimes.events = ended s.world.lifetimes.events) ∧
    (∀ h ts w', World.removeComponents h ts s.world = .ok () w' →
      ∃ es, s.world.entry h = .ok es ∧
        begun w'.lifetimes.events = begun s.world.lifetimes.events ∧
        ended w'.lifetimes.events = ended s.world.lifetimes.events +
          owned (contents (es.filter fun e => decide (e.1.code ∈ ts)))) ∧
    ∀ h w', World.destroy h s.world = .ok () w' →
      ∃ es, s.world.entry h = .ok es ∧
        begun w'.lifetimes.events = begun s.world.lifetimes.events ∧
        ended w'.lifetimes.events = ended s.world.lifetimes.events + owned (contents es) := by
  obtain ⟨hsound, hall⟩ := hs.invariant
  have hledger := hall
  unfold Accounted at hledger
  have hclosed : ended s.close.events + s.traffic.leaving =
      begun s.world.lifetimes.events + s.traffic.entering := by
    rw [(events_close hsound).1, ← hledger]
    abel
  refine ⟨hall, fun k => ?_, ?_, hclosed, fun k => ?_, fun hd x hx => ?_,
    fun h ts w' ha => World.ended_add hsound ha, fun h ts w' hr => World.ended_remove hsound hr,
    fun h w' hd => World.ended_destroy hsound hd⟩
  · have htally := congrArg (tally k) hledger
    simp only [tally_add, tally_entering] at htally
    omega
  · rw [← hledger]
    exact Multiset.le_add_right _ _ |>.trans' (Multiset.le_add_left _ _)
  · have htally := congrArg (tally k) hclosed
    simp only [tally_add, tally_entering] at htally
    omega
  · have hone := hs.count_identities hd hx
    refine ⟨hone, ?_⟩
    rw [(events_close hsound).1, identities_add, identities_add, Multiset.count_add,
      Multiset.count_add]
    omega

/-- One note is stored, one is held and two were dropped; the first note that was made is one of
these, and it is not dropped again. -/
theorem owned_values_end_once_sample :
    tally note sample.world.stock + tally note sample.held +
        tally note (ended sample.world.lifetimes.events) =
      tally note (begun sample.world.lifetimes.events) + tally note sample.traffic.1 ∧
    tally note sample.world.stock = 1 ∧ tally note sample.held = 1 ∧
    tally note (ended sample.world.lifetimes.events) = 2 ∧
    (identities (ended sample.world.lifetimes.events)).count (note, .made 0) = 1 ∧
    (identities (ended sample.close.events)).count (note, .made 0) = 1 := by
  obtain ⟨-, htally, -, -, -, hsingle, -⟩ := owned_values_end_once strained_sample
  have hdistinct : sample.traffic.Distinct := ⟨by decide +kernel, by decide +kernel⟩
  refine ⟨htally note, ?_, ?_, ?_, ?_, (hsingle hdistinct _ ?_).2⟩ <;> decide +kernel

end Session

end EntityStore
