import Mathlib
import EntityStore.Proofs.Evolution

/-!
# Single values

A default that somebody owns gets the next number, and callers number what they hand over. So each
owned value can be followed by its origin, whatever it contains at the time: a change in place
does not count, and where callers hand over no value twice, every value is at one place at a time.
-/
namespace EntityStore

open Lifetimes

/-- The origin of the value that an event makes. -/
def Event.birth : Event → Option Origin
  | made _ v => some v.origin
  | dropped _ _ => none

namespace Lifetimes
variable {es : List Event}

def births (es : List Event) : List Origin := es.filterMap Event.birth

/-- The values that were made are numbered one after the other. -/
def Numbered (es : List Event) : Prop :=
  births es = (List.range (es.countP Event.isMade)).map Origin.made

lemma births_append (es fs : List Event) : births (es ++ fs) = births es ++ births fs :=
  List.filterMap_append

lemma length_births (es : List Event) : (births es).length = es.countP Event.isMade := by
  induction es with
  | nil => rfl
  | cons e es ih =>
    rw [births] at ih
    cases e <;>
      simp [births, List.filterMap_cons, List.countP_cons, Event.birth, Event.isMade, ih]

lemma births_dropEvents (vs : List (Kind × Value)) : births (dropEvents vs) = [] := by
  simp [births, dropEvents, Event.birth, Function.comp_def]

lemma births_defaults (n : Nat) (ks : List Kind) : births (makeEvents (defaults n ks)) =
    (List.range' n (ks.countP Kind.owned)).map Origin.made := by
  induction ks generalizing n with
  | nil => rfl
  | cons k ks ih =>
    cases hk : k.owned with
    | false => simpa [defaults, makeEvents, hk] using ih n
    | true =>
      have hrest := ih (n + 1)
      simp only [births, makeEvents] at hrest
      simp [defaults, makeEvents, births, Event.birth, hk, hrest, Kind.default, List.range'_succ]

lemma Numbered.drop (h : Numbered es) (vs : List (Kind × Value)) :
    Numbered (es ++ dropEvents vs) := by
  have hsame := births_append es (dropEvents vs)
  rw [births_dropEvents, List.append_nil] at hsame
  rw [Numbered, ← length_births, hsame, length_births]
  exact h

lemma Numbered.make (h : Numbered es) (ks : List Kind) :
    Numbered (es ++ makeEvents (defaults (es.countP Event.isMade) ks)) := by
  generalize hn : es.countP Event.isMade = n
  have hmore : births (es ++ makeEvents (defaults n ks)) =
      (List.range (n + ks.countP Kind.owned)).map Origin.made := by
    rw [births_append, births_defaults, h, hn, List.range_add, List.map_append,
      List.range'_eq_map_range]
  rw [Numbered, ← length_births, hmore, List.length_map, List.length_range]

lemma Numbered.nodup (h : Numbered es) : (births es).Nodup := by
  rw [h]
  exact List.nodup_range.map fun m n hmn => Origin.made.inj hmn

end Lifetimes

namespace World
variable {w w' : World} {x : Traffic}

theorem Transition.numbered (hx : Transition w x w') (hn : Numbered w.lifetimes.events) :
    Numbered w'.lifetimes.events := by
  cases hx with
  | refused hr =>
    cases hr with
    | types => exact hn
    | room ho hf => exact ho.lifetimes ▸ hn
  | stalled ho hx =>
    obtain ⟨n, -, hevents⟩ := hx.events
    rw [hevents, ho.lifetimes]
    exact (hn.make _).drop _
  | filled ho hx =>
    rw [hx.events, ho.lifetimes]
    exact hn.make _
  | moved hm =>
    cases hm with
    | away ht hx =>
      rw [hx.events]
      exact hn.drop _
    | still hl ha hsig => exact hn
    | across ho hsig hx =>
      rw [hx.events, ho.lifetimes]
      exact (hn.make _).drop _
  | allocated ha => exact hn
  | freed hl hf => exact hn
  | registered hr => exact hn
  | written hx =>
    obtain ⟨gone, hevents⟩ := hx.events
    rw [hevents]
    exact hn.drop gone
  | returned k v =>
    rw [Lifetimes.drop_eq]
    exact hn.drop [(k, v)]
  | idle hx => rwa [hx.events]

theorem Transitions.numbered (hx : Transitions w x w') (hn : Numbered w.lifetimes.events) :
    Numbered w'.lifetimes.events := by
  induction hx with
  | refl w => exact hn
  | step hx _ ih => exact ih (hx.numbered hn)

end World

/-- Owned values by where they come from, whatever they contain. -/
def identities (m : Multiset (Kind × Value)) : Multiset (Kind × Origin) :=
  m.map (Prod.map id Value.origin)

lemma identities_add (m n : Multiset (Kind × Value)) :
    identities (m + n) = identities m + identities n := Multiset.map_add ..

def Origin.isGiven : Origin → Bool
  | made _ => false
  | given _ => true

namespace Traffic
variable {x : Traffic}

/-- Callers hand over each value once, under a number of its own. -/
structure Distinct (x : Traffic) : Prop where
  given : ∀ v ∈ x.1, v.2.origin.isGiven = true
  nodup : (identities x.1).Nodup

/-- A value that is changed in place stays the value that it was. -/
lemma identities_entering (x : Traffic) :
    identities x.entering = identities x.1 + identities x.leaving := by
  rw [identities, entering, Multiset.map_add, leaving, identities, identities, Multiset.map_map,
    Multiset.map_map]
  rfl

end Traffic

lemma begun_cons (e : Event) (es : List Event) : begun (e :: es) = e.begun + begun es := by
  simp [begun]

lemma origins_begun (es : List Event) : (identities (begun es)).map Prod.snd = births es := by
  induction es with
  | nil => rfl
  | cons e es ih =>
    rw [begun_cons, identities_add, Multiset.map_add, ih]
    cases e <;> rfl

lemma isGiven_of_begun {es : List Event} (hn : Numbered es) {x : Kind × Origin}
    (hx : x ∈ identities (begun es)) : x.2.isGiven = false := by
  have hbirth : x.2 ∈ births es := by
    rw [← Multiset.mem_coe, ← origins_begun]
    exact Multiset.mem_map_of_mem Prod.snd hx
  rw [hn] at hbirth
  obtain ⟨n, -, hxn⟩ := List.mem_map.mp hbirth
  rw [← hxn]
  rfl

namespace Session
variable {s : Session}

theorem Strained.numbered (hs : s.Strained) : Numbered s.world.lifetimes.events := by
  induction hs with
  | create hw =>
    obtain ⟨_, _, _, _, _, -, rfl⟩ := hw.eq
    rfl
  | @move s hs m ih =>
    rcases transitions_move hs.invariant.sound m with rfl | ⟨n, rfl⟩ | ⟨x, hx⟩
    · exact ih
    · exact ih
    · exact hx.numbered ih

/-- No two values have the same origin. -/
theorem Strained.nodup_identities (hs : s.Strained) (hd : s.traffic.Distinct) :
    (identities (begun s.world.lifetimes.events + s.traffic.1)).Nodup := by
  have hbegun : (identities (begun s.world.lifetimes.events)).Nodup := by
    refine .of_map Prod.snd ?_
    rw [origins_begun]
    exact Multiset.coe_nodup.mpr hs.numbered.nodup
  rw [identities_add, Multiset.nodup_add]
  refine ⟨hbegun, hd.nodup, Multiset.disjoint_left.mpr fun {x} hmade hgiven => ?_⟩
  obtain ⟨v, hv, rfl⟩ := Multiset.mem_map.mp hgiven
  have hnot := isGiven_of_begun hs.numbered hmade
  exact Bool.false_ne_true (hnot.symm.trans (hd.given v hv))

end Session

end EntityStore
