import Mathlib
import EntityStore.World.Queries
import EntityStore.Proofs.Bijection
import EntityStore.Proofs.Evolution
import EntityStore.Proofs.FreeChain
import EntityStore.Proofs.Occupancy

/-!
# One archetype for each set of types

The directory, the slots, the chain of free slots and the count of archetypes tell the same story in
every session: each set of types that an entity has belongs to one archetype. Archetypes
without entities are left over only where a default could not be made.
-/
namespace EntityStore

namespace Catalogue
variable {c c' : Catalogue} {a b : Archetype} {id : Nat} {v : UInt32} {p q : Pool}

def Slot.next? : Slot → Option (Option Nat)
  | used _ => none
  | free next => some next

def links (c : Catalogue) (i : Nat) : Option (Option Nat) := c.slots[i]?.bind Slot.next?

/-- The archetypes in use are counted, each has types, and the other slots are chained. -/
structure Tidy (c : Catalogue) : Prop where
  active : c.active = c.archetypes.length
  named : ∀ id a, c.get? id = some a → a.signature ≠ []
  chain : ∃ is, FreeChain c.links c.freeHead is

lemma links_eq_some {i : Nat} {next : Option Nat} :
    c.links i = some next ↔ c.slots[i]? = some (.free next) := by
  unfold links
  cases c.slots[i]? with
  | none => simp
  | some s => cases s <;> simp [Slot.next?]

lemma links_of_get (ha : c.get? id = some a) : c.links id = none := by
  rw [links, slot_of_get ha]
  rfl

lemma length_archetypes (c : Catalogue) : c.archetypes.length = c.total fun _ => 1 := by
  simp [total]

lemma tidy_new (n : Nat) (hash : List TypeCode → Nat) : (new n hash).Tidy where
  active := rfl
  named id a ha := by simp [new, get?] at ha
  chain := ⟨[], .nil fun i => by simp [links, new]⟩

lemma Tidy.add (h : c.Tidy) (ha : c.add a = .ok c') (hsig : a.signature ≠ []) : c'.Tidy := by
  obtain ⟨hactive, hnamed, is, hchain⟩ := h
  refine ⟨?_, fun i x hx => ?_, ?_⟩
  · have hcount : c'.active = c.active + 1 := by
      obtain ⟨d, -, ⟨-, rfl⟩ | ⟨i, next, -, -, rfl⟩⟩ := add_eq_ok ha <;> rfl
    rw [hcount, hactive, length_archetypes, length_archetypes, total_add _ ha]
  · rw [(get_add ha).2] at hx
    by_cases hi : i = c.nextId
    · rw [hi, Function.update_self] at hx
      rwa [← Option.some.inj hx]
    · rw [Function.update_of_ne hi] at hx
      exact hnamed i x hx
  · obtain ⟨d, -, ⟨hf, rfl⟩ | ⟨i, next, hf, hs, rfl⟩⟩ := add_eq_ok ha
    · have hlinks : links ⟨c.slots.push (.used a), none, c.active + 1, d, c.hash⟩ =
          Function.update c.links c.slots.size none := getElem?_push
      rw [hlinks]
      rw [hf] at hchain
      exact ⟨is, hchain.update (by simp [links])⟩
    · have hlinks : links ⟨c.slots.setIfInBounds i (.used a), next, c.active + 1, d, c.hash⟩ =
          Function.update c.links i none := getElem?_update (Array.getElem?_eq_some_iff.mp hs).1
      rw [hlinks]
      rw [hf] at hchain
      obtain ⟨js, -, hrest⟩ := hchain.take (links_eq_some.mpr hs)
      exact ⟨js, hrest⟩

lemma Tidy.set (h : c.Tidy) (ha : c.get? id = some a) (hblank : b.blank = a.blank) :
    (c.set id b).Tidy := by
  obtain ⟨hactive, hnamed, is, hchain⟩ := h
  refine ⟨?_, fun i x hx => ?_, is, ?_⟩
  · have htotal := total_set (fun _ => 1) ha b
    rw [length_archetypes, add_right_cancel htotal, ← length_archetypes]
    exact hactive
  · rw [get_set ha] at hx
    by_cases hi : i = id
    · rw [hi, Function.update_self] at hx
      rw [← Option.some.inj hx, Archetype.signature_of_blank hblank]
      exact hnamed id a ha
    · rw [Function.update_of_ne hi] at hx
      exact hnamed i x hx
  · have hlinks : (c.set id b).links = Function.update c.links id none :=
      getElem?_update (Array.getElem?_eq_some_iff.mp (slot_of_get ha)).1
    rw [hlinks]
    exact hchain.update (links_of_get ha)

lemma Tidy.recycle (h : c.Tidy) (id : Nat) : (c.recycle id).Tidy := by
  cases ha : c.get? id with
  | none => simpa [Catalogue.recycle, ha] using h
  | some a =>
    by_cases he : a.isEmpty = true
    · obtain ⟨hactive, hnamed, is, hchain⟩ := h
      refine ⟨?_, fun i x hx => ?_, id :: is, ?_⟩
      · have htotal := total_recycle_add (fun _ => 1) ha he
        have hcount : (c.recycle id).active = c.active - 1 := by rw [recycle_of_empty ha he]
        rw [hcount, hactive, length_archetypes, length_archetypes, ← htotal, Nat.add_sub_cancel]
      · exact hnamed i x (get_of_recycle hx)
      · rw [recycle_of_empty ha he]
        have hlinks : links ⟨c.slots.setIfInBounds id (.free c.freeHead), some id, c.active - 1,
            (c.directory.erase c.hash a.signature).2, c.hash⟩ =
            Function.update c.links id (some c.freeHead) :=
          getElem?_update (Array.getElem?_eq_some_iff.mp (slot_of_get ha)).1
        rw [hlinks]
        exact hchain.give (links_of_get ha)
    · rwa [recycle_of_not_empty ha he]

end Catalogue

lemma Evolves.tidy {v : UInt32} {x y : Catalogue × Pool} (h : Evolves v x y) (hx : x.1.Tidy) :
    y.1.Tidy := by
  cases h with
  | added ha hchunks hsig => exact hx.add ha hsig
  | reshaped ha hab => exact hx.set ha hab.blank
  | recycled p id he => exact hx.recycle id
  | flushed c p => exact hx
  | supplied c p n => exact hx

theorem Session.Strained.tidy {s : Session} (hs : s.Strained) : s.world.catalogue.Tidy :=
  hs.stored (P := fun x => x.1.Tidy) (fun n hash _ _ _ => Catalogue.tidy_new n hash)
    fun _ _ _ h hx => h.tidy hx

namespace World
variable {w : World} {e f h : Handle} {id : Nat} {a b : Archetype} {ts : List TypeCode}

lemma Sound.codes (hs : w.Sound) (ha : w.catalogue.get? id = some a) :
    a.codes = .entity :: a.signature :=
  (hs.catalogue.drafted _ a ha).codes

/-- Archetypes are found by their types, and by no others. -/
lemma Sound.find_iff (hs : w.Sound) : w.catalogue.find? ts = some id ↔
    ∃ a, w.catalogue.get? id = some a ∧ a.codes = .entity :: ts := by
  rw [Catalogue.find_eq_some hs.catalogue.valid]
  refine exists_congr fun a => and_congr_right fun ha => ?_
  rw [hs.codes ha, List.cons.injEq, and_iff_right rfl]

lemma Sound.unique (hs : w.Sound) {i j : Nat} (ha : w.catalogue.get? i = some a)
    (hb : w.catalogue.get? j = some b) (hsame : ∀ t, t ∈ a.codes ↔ t ∈ b.codes) : i = j := by
  obtain ⟨hna, hsa⟩ := (hs.catalogue.drafted _ a ha).ascending
  obtain ⟨hnb, hsb⟩ := (hs.catalogue.drafted _ b hb).ascending
  have hmem : ∀ t, t ∈ a.signature ↔ t ∈ b.signature := by
    intro t
    have ht := hsame t
    rw [hs.codes ha, hs.codes hb, List.mem_cons, List.mem_cons] at ht
    by_cases he : t = .entity
    · rw [he]
      exact iff_of_false hna hnb
    · simpa [he] using ht
  exact hs.catalogue.valid.unique ha hb (hsa.eq_of_mem_iff hsb hmem)

lemma Sound.typed (hs : w.Sound) (hv : w.handles.isValid h = true) :
    w.handles.location h = .ok none ∧ w.typesOf h = .ok [] ∨
      ∃ l a, w.handles.location h = .ok (some l) ∧ w.catalogue.get? l.archetype = some a ∧
        w.typesOf h = .ok a.signature := by
  unfold typesOf
  cases hl : w.handles.location h with
  | error f => simp [HandleTable.isValid, hl, Except.isOk, Except.toBool] at hv
  | ok m =>
    cases m with
    | none => exact .inl ⟨rfl, rfl⟩
    | some l =>
      obtain ⟨a, r, ha, -⟩ := hs.get hl
      exact .inr ⟨l, a, rfl, ha, by simp only [Catalogue.get_eq_ok.mpr ha, Except.map]⟩

/-- Live entities share an archetype exactly if they have the same types. -/
lemma archetypeOf_eq_iff (hs : w.Sound) (ht : w.catalogue.Tidy) (he : w.handles.isValid e = true)
    (hf : w.handles.isValid f = true) :
    w.archetypeOf e = w.archetypeOf f ↔ w.typesOf e = w.typesOf f := by
  unfold archetypeOf
  rcases hs.typed he with ⟨hle, hte⟩ | ⟨l, a, hle, ha, hte⟩
  · rcases hs.typed hf with ⟨hlf, htf⟩ | ⟨m, b, hlf, hb, htf⟩
    · simp [hle, hlf, hte, htf]
    · have hne := ht.named _ b hb
      simp [hle, hlf, hte, htf, Except.map, hne.symm]
  · rcases hs.typed hf with ⟨hlf, htf⟩ | ⟨m, b, hlf, hb, htf⟩
    · have hne := ht.named _ a ha
      simp [hle, hlf, hte, htf, Except.map, hne]
    · simp only [hle, hlf, hte, htf, Except.map, Option.map_some, Except.ok.injEq,
        Option.some.injEq]
      constructor
      · intro hid
        rw [hid, hb] at ha
        rw [Option.some.inj ha]
      · exact hs.catalogue.valid.unique ha hb

/-- The sets of types that entities have, each once. -/
def signatures (w : World) : Set (List TypeCode) := {ts | ts ≠ [] ∧ ∃ h, w.typesOf h = .ok ts}

lemma mem_signatures (hs : w.Sound) (ht : w.catalogue.Tidy) : ts ∈ w.signatures ↔
    ∃ a ∈ w.catalogue.archetypes, ¬ a.isEmpty = true ∧ a.signature = ts := by
  constructor
  · rintro ⟨hne, h, hh⟩
    unfold typesOf at hh
    cases hl : w.handles.location h with
    | error f => simp [hl] at hh
    | ok m =>
      cases m with
      | none => exact absurd (by simpa [hl] using hh) hne
      | some l =>
        obtain ⟨a, r, ha, hp, hr, -⟩ := hs.get hl
        simp only [hl, Catalogue.get_eq_ok.mpr ha, Except.map, Except.ok.injEq] at hh
        refine ⟨a, Catalogue.mem_archetypes.mpr ⟨_, ha⟩, fun he => ?_, hh⟩
        rw [hp.isEmpty.mp he] at hr
        simp at hr
  · rintro ⟨a, ha, he, rfl⟩
    obtain ⟨id, ha⟩ := Catalogue.mem_archetypes.mp ha
    have hpos : 0 < a.count := Nat.pos_of_ne_zero (by simpa [Archetype.isEmpty] using he)
    obtain ⟨h, hh⟩ := hs.handleAt ha hpos
    have hl := hs.located_iff.mpr ⟨a, ha, hpos, hh⟩
    exact ⟨ht.named id a ha, h, typesOf_of_get hl ha⟩

lemma Sound.nodup_signatures (hs : w.Sound) :
    (w.catalogue.archetypes.map Archetype.signature).Nodup := by
  rw [List.Nodup, List.pairwise_map]
  refine Catalogue.pairwise_archetypes fun i j a b hij ha hb hsig => ?_
  exact hij.ne (hs.catalogue.valid.unique ha hb hsig)

/-- Archetypes in use are as many as there are sets of types, and those without entities. -/
theorem encard_signatures (hs : w.Sound) (ht : w.catalogue.Tidy) :
    w.signatures.encard + (w.catalogue.archetypes.filter Archetype.isEmpty).length =
      w.archetypeCount := by
  let full := w.catalogue.archetypes.filter fun a => !a.isEmpty
  have hset : w.signatures = ((full.map Archetype.signature).toFinset : Set (List TypeCode)) := by
    ext ts
    simp [mem_signatures hs ht, full, and_assoc]
  have hnodup : (full.map Archetype.signature).Nodup :=
    hs.nodup_signatures.sublist (List.filter_sublist.map _)
  have hsplit := List.length_eq_length_filter_add (l := w.catalogue.archetypes) Archetype.isEmpty
  rw [hset, Set.encard_coe_eq_coe_finsetCard, List.toFinset_card_of_nodup hnodup, List.length_map,
    archetypeCount, ht.active, hsplit, add_comm]
  exact (Nat.cast_add _ _).symm

end World

namespace Session
variable {s : Session}

/-- In every session there is one archetype for each set of types: types are found under
the number of the archetype in use that has exactly these, no two archetypes have the same types,
the archetypes in use are counted, and the chain of free slots visits each of them once and ends.
So live entities share an archetype exactly if they have the same types, and the archetypes are as
many as the sets of types that entities have, but for archetypes without entities. Of these there
are none unless an operation or a script was cut short. -/
theorem one_archetype_for_each_set (hs : s.Strained) :
    (∀ ts id, s.world.catalogue.find? ts = some id ↔
      ∃ a, s.world.catalogue.get? id = some a ∧ a.codes = .entity :: ts) ∧
    (∀ i j a b, s.world.catalogue.get? i = some a → s.world.catalogue.get? j = some b →
      (∀ t, t ∈ a.codes ↔ t ∈ b.codes) → i = j) ∧
    s.world.archetypeCount = s.world.catalogue.archetypes.length ∧
    (∃ is, Linked s.world.catalogue.links s.world.catalogue.freeHead is ∧ is.Nodup ∧
      ∀ i, i ∈ is ↔ ∃ next, s.world.catalogue.slots[i]? = some (.free next)) ∧
    (∀ e f, s.world.handles.isValid e = true → s.world.handles.isValid f = true →
      (s.world.archetypeOf e = s.world.archetypeOf f ↔
        s.world.typesOf e = s.world.typesOf f)) ∧
    s.world.signatures.encard +
        (s.world.catalogue.archetypes.filter Archetype.isEmpty).length = s.world.archetypeCount ∧
    (s.Calm → (∀ id a, s.world.catalogue.get? id = some a → 0 < a.count) ∧
      s.world.signatures.encard = s.world.archetypeCount) := by
  have hsound := hs.invariant.sound
  have htidy := hs.tidy
  have hcount := World.encard_signatures hsound htidy
  refine ⟨fun ts id => hsound.find_iff, fun i j a b ha hb => hsound.unique ha hb, htidy.active, ?_,
    fun e f he hf => World.archetypeOf_eq_iff hsound htidy he hf, hcount, fun hcalm => ?_⟩
  · obtain ⟨is, hchain⟩ := htidy.chain
    refine ⟨is, hchain.linked, hchain.nodup, fun i => ?_⟩
    simp only [hchain.mem_iff, Catalogue.links_eq_some]
  · have hpos : ∀ id a, s.world.catalogue.get? id = some a → 0 < a.count := by
      intro id a ha
      rw [(hsound.catalogue.packed _ a ha).counted]
      exact List.length_pos_iff.mpr (hcalm.occupied id a ha)
    have hnone : s.world.catalogue.archetypes.filter Archetype.isEmpty = [] := by
      rw [List.filter_eq_nil_iff]
      intro a ha
      obtain ⟨id, hget⟩ := Catalogue.mem_archetypes.mp ha
      have hne := (hpos id a hget).ne'
      simpa [Archetype.isEmpty] using hne
    rw [hnone] at hcount
    exact ⟨hpos, by simpa using hcount⟩

/-- The entity that is left shares the archetype with none, and there is no other archetype. -/
theorem one_archetype_for_each_set_sample :
    sample.world.catalogue.find? [⟨1⟩] = some 0 ∧ sample.world.archetypeCount = 1 ∧
    (∃ a, sample.world.catalogue.get? 0 = some a ∧ a.codes = .entity :: [⟨1⟩]) ∧
    sample.world.signatures.encard = 1 := by
  obtain ⟨hfind, -, -, -, -, -, hcalm⟩ := one_archetype_for_each_set strained_sample
  have hfound : sample.world.catalogue.find? [⟨1⟩] = some 0 := by decide +kernel
  have hone : sample.world.archetypeCount = 1 := by decide +kernel
  refine ⟨hfound, hone, (hfind _ _).mp hfound, ?_⟩
  rw [(hcalm calm_sample).2, hone]
  rfl

end Session

end EntityStore
