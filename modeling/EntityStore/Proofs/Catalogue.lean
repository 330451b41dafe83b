import Mathlib
import EntityStore.Catalogue
import EntityStore.Proofs.Archetype
import EntityStore.Proofs.Directory
import EntityStore.Proofs.FreeChain

/-!
# A catalogue is a partial map from numbers to archetypes

Adding, writing back and giving up an archetype each change the map at one number. `Valid` says
that the directory finds exactly the archetypes in use, each under its component types. `total`
adds up a quantity over the archetypes in use.
-/
namespace EntityStore

lemma sum_map_set {α M : Type} [AddCommMonoid M] (f : α → M) {xs : List α} {i : Nat} {x : α}
    (hx : xs[i]? = some x) (y : α) :
    ((xs.set i y).map f).sum + f x = (xs.map f).sum + f y := by
  induction xs generalizing i with
  | nil => simp at hx
  | cons z xs ih =>
    cases i with
    | zero =>
      obtain rfl : z = x := by simpa using hx
      simp only [List.set_cons_zero, List.map_cons, List.sum_cons]
      exact (add_right_comm _ _ _).trans (by ac_rfl)
    | succ i =>
      have h := ih (i := i) (by simpa using hx)
      simp only [List.set_cons_succ, List.map_cons, List.sum_cons, add_assoc, h]

namespace Catalogue

variable {c c' : Catalogue} {a b : Archetype} {id : Nat} {ts : List TypeCode}

structure Valid (c : Catalogue) : Prop where
  directory : c.directory.Valid c.hash
  indexed : ∀ ts id, c.directory.Holds ts id ↔ ∃ a, c.get? id = some a ∧ a.signature = ts

lemma slot_of_get (h : c.get? id = some a) : c.slots[id]? = some (.used a) := by
  unfold get? at h
  obtain ⟨s, hs, ha⟩ := Option.bind_eq_some_iff.mp h
  cases s with
  | used b => rw [hs, Option.some.inj ha]
  | free next => simp [Slot.archetype?] at ha

lemma mem_archetypes : a ∈ c.archetypes ↔ ∃ id, c.get? id = some a := by
  rw [archetypes, List.mem_filterMap]
  constructor
  · rintro ⟨s, hs, ha⟩
    obtain ⟨i, hi⟩ := List.mem_iff_getElem?.mp hs
    rw [Array.getElem?_toList] at hi
    exact ⟨i, by rw [get?, hi]; exact ha⟩
  · rintro ⟨id, ha⟩
    exact ⟨_, Array.mem_toList_iff.mpr (Array.mem_of_getElem? (slot_of_get ha)), rfl⟩

lemma pairwise_archetypes {R : Archetype → Archetype → Prop}
    (hR : ∀ i j a b, i < j → c.get? i = some a → c.get? j = some b → R a b) :
    c.archetypes.Pairwise R := by
  have hget : ∀ (k : Nat) (hk : k < c.slots.toList.length) (a : Archetype),
      c.slots.toList[k].archetype? = some a → c.get? k = some a := by
    intro k hk a ha
    rw [Array.getElem_toList] at ha
    rw [get?, Array.getElem?_eq_getElem (by simpa using hk)]
    exact ha
  rw [archetypes, List.pairwise_filterMap, List.pairwise_iff_getElem]
  intro i j hi hj hij a ha b hb
  exact hR i j a b hij (hget i hi a ha) (hget j hj b hb)

lemma get_eq_ok : c.get id = .ok a ↔ c.get? id = some a := by
  unfold get
  cases c.get? id <;> simp

lemma valid_new (n : Nat) (hash : List TypeCode → Nat) : (new n hash).Valid where
  directory := Directory.valid_new hash n
  indexed ts id := by
    have hd : ¬ (Directory.new n).Holds ts id := Directory.not_holds_new
    simp [hd, get?, new]

theorem find_eq_some (h : c.Valid) :
    c.find? ts = some id ↔ ∃ a, c.get? id = some a ∧ a.signature = ts := by
  rw [find?, Directory.get_eq_some h.directory, h.indexed]

lemma Valid.unique (h : c.Valid) {i j : Nat} (ha : c.get? i = some a) (hb : c.get? j = some b)
    (hs : a.signature = b.signature) : i = j := by
  have h1 := (find_eq_some h).mpr ⟨a, ha, rfl⟩
  have h2 := (find_eq_some h).mpr ⟨b, hb, hs.symm⟩
  exact Option.some.inj (h1.symm.trans h2)

lemma get_set (h : c.get? id = some b) (a : Archetype) :
    (c.set id a).get? = Function.update c.get? id (some a) :=
  getElem?_update (Array.getElem?_eq_some_iff.mp (slot_of_get h)).1

lemma set_self (h : c.get? id = some a) : c.set id a = c := by
  have hslots : c.slots.setIfInBounds id (.used a) = c.slots := by
    have hslot := slot_of_get h
    apply Array.ext_getElem?
    intro i
    rw [Array.getElem?_setIfInBounds]
    split_ifs with hi hlt
    · rw [← hi, hslot]
    · exact absurd (Array.getElem?_eq_some_iff.mp hslot).1 hlt
    · rfl
  rw [set, hslots]

theorem valid_set (h : c.Valid) (hb : c.get? id = some b) (hs : a.signature = b.signature) :
    (c.set id a).Valid where
  directory := h.directory
  indexed ts i := by
    have hd : (c.set id a).directory = c.directory := rfl
    rw [hd, h.indexed, get_set hb]
    by_cases hi : i = id
    · subst hi
      simp [hb, hs]
    · simp [hi]

/-- What adding an archetype writes: a new slot, or the first free one. -/
lemma add_eq_ok (ha : c.add a = .ok c') :
    ∃ d, c.directory.insert c.hash a.signature c.nextId = .ok d ∧
      (c.freeHead = none ∧ c' = ⟨c.slots.push (.used a), none, c.active + 1, d, c.hash⟩ ∨
        ∃ i next, c.freeHead = some i ∧ c.slots[i]? = some (.free next) ∧
          c' = ⟨c.slots.setIfInBounds i (.used a), next, c.active + 1, d, c.hash⟩) := by
  unfold add at ha
  cases hd : c.directory.insert c.hash a.signature c.nextId with
  | error f => simp [hd] at ha
  | ok d =>
    refine ⟨d, rfl, ?_⟩
    cases hf : c.freeHead with
    | none =>
      simp only [hd, hf, Except.ok.injEq] at ha
      exact .inl ⟨rfl, ha.symm⟩
    | some i =>
      cases hs : c.slots[i]? with
      | none => simp [hd, hf, hs] at ha
      | some s =>
        cases s with
        | used b => simp [hd, hf, hs] at ha
        | free next =>
          simp only [hd, hf, hs, Except.ok.injEq] at ha
          exact .inr ⟨i, next, rfl, hs, ha.symm⟩

theorem get_add (ha : c.add a = .ok c') :
    c.get? c.nextId = none ∧ c'.get? = Function.update c.get? c.nextId (some a) := by
  obtain ⟨d, -, ⟨hf, rfl⟩ | ⟨i, next, hf, hs, rfl⟩⟩ := add_eq_ok ha
  · have hn : c.nextId = c.slots.size := by simp [nextId, hf]
    rw [hn]
    exact ⟨by simp [get?], getElem?_push⟩
  · have hn : c.nextId = i := by simp [nextId, hf]
    rw [hn]
    exact ⟨by simp [get?, hs, Slot.archetype?],
      getElem?_update (Array.getElem?_eq_some_iff.mp hs).1⟩

/-- The types of a new archetype were not in use either, and it is found under them. -/
theorem add_spec (h : c.Valid) (ha : c.add a = .ok c') :
    c.get? c.nextId = none ∧ c'.get? = Function.update c.get? c.nextId (some a) ∧ c'.Valid ∧
      (∀ i b, c.get? i = some b → b.signature ≠ a.signature) ∧ c'.active = c.active + 1 := by
  obtain ⟨hnone, hget⟩ := get_add ha
  obtain ⟨d, hd, hc⟩ := add_eq_ok ha
  obtain ⟨hvalid, hnew, hholds⟩ := Directory.insert_spec h.directory hd
  obtain ⟨hdirectory, hhash, hactive⟩ :
      c'.directory = d ∧ c'.hash = c.hash ∧ c'.active = c.active + 1 := by
    rcases hc with ⟨-, rfl⟩ | ⟨i, next, -, -, rfl⟩ <;> exact ⟨rfl, rfl, rfl⟩
  refine ⟨hnone, hget, ⟨by rwa [hdirectory, hhash], fun ts i => ?_⟩,
    fun i b hb hs => hnew i ((h.indexed _ _).mpr ⟨b, hb, hs⟩), hactive⟩
  rw [hdirectory, hholds, h.indexed, hget]
  by_cases hi : i = c.nextId
  · subst hi
    simp [hnone, eq_comm]
  · simp [hi]

lemma recycle_of_not_empty (ha : c.get? id = some a) (he : ¬ a.isEmpty = true) :
    c.recycle id = c := by
  simp [recycle, ha, he]

lemma recycle_of_empty (ha : c.get? id = some a) (he : a.isEmpty = true) :
    c.recycle id = ⟨c.slots.setIfInBounds id (.free c.freeHead), some id, c.active - 1,
      (c.directory.erase c.hash a.signature).2, c.hash⟩ := by
  simp [recycle, ha, he]

theorem get_recycle (c : Catalogue) (id : Nat) : (c.recycle id).get? =
    if (c.get? id).any Archetype.isEmpty then Function.update c.get? id none else c.get? := by
  cases ha : c.get? id with
  | none => simp [recycle, ha]
  | some a =>
    by_cases he : a.isEmpty = true
    · rw [recycle_of_empty ha he]
      simp only [Option.any_some, he, if_true]
      exact getElem?_update (Array.getElem?_eq_some_iff.mp (slot_of_get ha)).1
    · rw [recycle_of_not_empty ha he]
      simp [he]

lemma get_of_recycle {i : Nat} (h : (c.recycle id).get? i = some a) : c.get? i = some a := by
  rw [get_recycle] at h
  split_ifs at h
  · by_cases hi : i = id
    · rw [hi, Function.update_self] at h
      cases h
    · rwa [Function.update_of_ne hi] at h
  · exact h

theorem recycle_spec (h : c.Valid) (ha : c.get? id = some a) :
    (c.recycle id).Valid ∧ (c.recycle id).get? =
      (if a.isEmpty then Function.update c.get? id none else c.get?) := by
  have hget := get_recycle c id
  rw [ha, Option.any_some] at hget
  refine ⟨?_, hget⟩
  by_cases he : a.isEmpty = true
  · rw [if_pos he] at hget
    obtain ⟨hvalid, hholds⟩ := Directory.erase_spec h.directory a.signature
    obtain ⟨hdir, hhash⟩ : (c.recycle id).directory = (c.directory.erase c.hash a.signature).2 ∧
        (c.recycle id).hash = c.hash := by
      rw [recycle_of_empty ha he]
      exact ⟨rfl, rfl⟩
    refine ⟨by rwa [hdir, hhash], fun ts i => ?_⟩
    rw [hdir, hholds, h.indexed, hget]
    by_cases hi : i = id
    · subst hi
      simp [ha, eq_comm]
    · rw [Function.update_of_ne hi]
      refine and_iff_right_of_imp ?_
      rintro ⟨b, hb, rfl⟩ hs
      exact hi (h.unique hb ha hs)
  · rwa [recycle_of_not_empty ha he]

/-- Adding an archetype and giving it up again changes nothing that can be seen. -/
lemma recycle_add (h : c.Valid) (ha : c.add a = .ok c') (he : a.isEmpty = true) :
    (c'.recycle c.nextId).get? = c.get? ∧ (c'.recycle c.nextId).active = c.active := by
  obtain ⟨hnone, hget, hvalid, -, hactive⟩ := add_spec h ha
  have hself : c'.get? c.nextId = some a := by rw [hget, Function.update_self]
  obtain ⟨-, hrecycle⟩ := recycle_spec hvalid hself
  constructor
  · rw [hrecycle, if_pos he, hget, Function.update_idem, ← hnone, Function.update_eq_self]
  · simp [recycle, hself, he, hactive]

section Total
variable {M : Type} [AddCommMonoid M] (f : Archetype → M)

def total (c : Catalogue) : M := (c.archetypes.map f).sum

/-- The part of a slot in a total. -/
def Slot.share (s : Slot) : M := s.archetype?.elim 0 f

lemma total_eq_sum : c.total f = (c.slots.toList.map (Slot.share f)).sum := by
  rw [total, archetypes]
  induction c.slots.toList with
  | nil => rfl
  | cons s ss ih =>
    cases s <;> simp [Slot.share, Slot.archetype?, List.filterMap_cons, ih]

theorem total_set (hb : c.get? id = some b) (a : Archetype) :
    (c.set id a).total f + f b = c.total f + f a := by
  have hs : c.slots.toList[id]? = some (.used b) := by simpa using slot_of_get hb
  rw [total_eq_sum, total_eq_sum, set, Array.toList_setIfInBounds]
  exact sum_map_set (Slot.share f) hs (.used a)

theorem total_add (ha : c.add a = .ok c') : c'.total f = c.total f + f a := by
  obtain ⟨d, -, ⟨hf, rfl⟩ | ⟨i, next, hf, hs, rfl⟩⟩ := add_eq_ok ha
  · simp [total_eq_sum, Slot.share, Slot.archetype?]
  · have hl : c.slots.toList[i]? = some (.free next) := by simpa using hs
    have h := sum_map_set (Slot.share f) hl (.used a)
    simpa [total_eq_sum, Slot.share, Slot.archetype?] using h

theorem total_recycle_add (ha : c.get? id = some a) (he : a.isEmpty = true) :
    (c.recycle id).total f + f a = c.total f := by
  have hs : c.slots.toList[id]? = some (.used a) := by simpa using slot_of_get ha
  have h := sum_map_set (Slot.share f) hs (.free c.freeHead)
  rw [recycle_of_empty ha he]
  simpa [total_eq_sum, Slot.share, Slot.archetype?] using h

theorem total_recycle (hf : ∀ a, c.get? id = some a → a.isEmpty = true → f a = 0) :
    (c.recycle id).total f = c.total f := by
  cases ha : c.get? id with
  | none => simp [recycle, ha]
  | some a =>
    by_cases he : a.isEmpty = true
    · have h := total_recycle_add f ha he
      rwa [hf a ha he, add_zero] at h
    · rw [recycle_of_not_empty ha he]

end Total

end Catalogue

end EntityStore
