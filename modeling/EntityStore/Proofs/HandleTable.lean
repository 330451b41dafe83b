import Mathlib
import EntityStore.Handle.Table

/-!
# The handle table as a function

All that the store asks of the table is `location`. Each operation of the table changes it at one
handle only.
-/
namespace EntityStore.HandleTable

variable {t t' : HandleTable} {h : Handle} {l : Option Location}

lemma location_eq_ok : t.location h = .ok l ↔
    0 ≤ h.index ∧ t.records[h.index.toNat]? = some ⟨h.version, .live l⟩ := by
  unfold location
  split_ifs with hneg
  · simp [hneg]
  · split
    next v m hr =>
      rw [hr]
      split_ifs with hv
      · simp [hv, not_lt.mp hneg]
      · simp [hv]
    next hno =>
      simp only [reduceCtorEq, false_iff, not_and]
      exact fun _ hr => hno _ _ hr

lemma location_error {f : Fault} (he : t.location h = .error f) : f = .invalidHandle h := by
  unfold location at he
  split_ifs at he
  · exact (Except.error.inj he).symm
  · split at he
    · split_ifs at he
      exact (Except.error.inj he).symm
    · exact (Except.error.inj he).symm

lemma location_eq_error : t.location h = .error (.invalidHandle h) ↔ ∀ l, t.location h ≠ .ok l := by
  cases he : t.location h with
  | error f => simp [location_error he]
  | ok l => simp

/-- A table that knows the same locations as another, except for one handle. -/
lemma location_eq_update {x : Except Fault (Option Location)} (hh : t'.location h = x)
    (hne : ∀ g, g ≠ h → ∀ l, t'.location g = .ok l ↔ t.location g = .ok l) :
    t'.location = Function.update t.location h x := by
  funext g
  by_cases hg : g = h
  · rw [hg, hh, Function.update_self]
  · rw [Function.update_of_ne hg]
    cases he : t.location g with
    | ok l => exact (hne g hg l).mpr he
    | error f =>
      rw [location_error he, location_eq_error]
      intro l hok
      rw [(hne g hg l).mp hok] at he
      cases he

lemma location_set {i : Nat} {v : UInt32} {s : Slot} {freeHead : Option Nat} {live : Nat}
    (hi : i < t.records.size) {g : Handle} :
    location { records := t.records.setIfInBounds i ⟨v, s⟩, freeHead, live } g = .ok l ↔
      if g.index = i then g.version = v ∧ s = .live l else t.location g = .ok l := by
  rw [location_eq_ok, location_eq_ok, Array.getElem?_setIfInBounds]
  split_ifs with h1 h2 h3
  · simp [h2, eq_comm]
  · simp only [Option.some.injEq, Record.mk.injEq]
    omega
  · omega
  · rfl

lemma location_push {v : UInt32} {s : Slot} {freeHead : Option Nat} {live : Nat} {g : Handle} :
    location { records := t.records.push ⟨v, s⟩, freeHead, live } g = .ok l ↔
      if g.index = t.records.size then g.version = v ∧ s = .live l else t.location g = .ok l := by
  rw [location_eq_ok, location_eq_ok, Array.getElem?_push]
  split_ifs with h1 h2 h3
  · simp [h2, eq_comm]
  · simp only [Option.some.injEq, Record.mk.injEq]
    omega
  · omega
  · rfl

theorem location_allocate (ha : t.allocate = .ok (h, t')) :
    t.location h = .error (.invalidHandle h) ∧
      t'.location = Function.update t.location h (.ok none) ∧ t'.live = t.live + 1 := by
  unfold allocate at ha
  split at ha
  next i _ =>
    split at ha
    next v next hr =>
      obtain ⟨rfl, rfl⟩ : (⟨i, v⟩ : Handle) = h ∧ _ = t' := by simpa using ha
      have hi : i < t.records.size := (Array.getElem?_eq_some_iff.mp hr).1
      refine ⟨?_, location_eq_update ?_ fun g hg l => ?_, rfl⟩
      · simp [location_eq_error, location_eq_ok, hr]
      · rw [location_set hi]
        simp
      · have hfree : ∀ l, g.index = i → t.location g ≠ .ok l := by
          intro l he hok
          have := (location_eq_ok.mp hok).2
          simp [he, hr] at this
        rw [location_set hi]
        split_ifs with he
        · refine iff_of_false (fun hv => hg ?_) (hfree l he)
          cases g
          simp_all
        · rfl
    next => simp at ha
  next =>
    split_ifs at ha with hfull
    obtain ⟨rfl, rfl⟩ : (⟨t.records.size, 1⟩ : Handle) = h ∧ _ = t' := by simpa using ha
    refine ⟨?_, location_eq_update ?_ fun g hg l => ?_, rfl⟩
    · simp [location_eq_error, location_eq_ok]
    · rw [location_push]
      simp
    · rw [location_push]
      split_ifs with he
      · refine iff_of_false (fun hv => hg ?_) fun hok => ?_
        · cases g
          simp_all
        · have := (location_eq_ok.mp hok).2
          simp [he] at this
      · rfl

lemma free_ok_iff : (∃ t', t.free h = .ok t') ↔ ∃ l, t.location h = .ok l := by
  unfold free
  cases t.location h <;> simp [Except.map]

lemma setLocation_ok_iff : (∃ t', t.setLocation h l = .ok t') ↔ ∃ m, t.location h = .ok m := by
  unfold setLocation
  cases t.location h <;> simp [Except.map]

/-- Writing the record of a valid handle changes its location only. -/
lemma location_set_valid {m : Option Location} (hm : t.location h = .ok m) {v : UInt32} {s : Slot}
    {freeHead : Option Nat} {live : Nat} {x : Except Fault (Option Location)}
    (hx : location { records := t.records.setIfInBounds h.index.toNat ⟨v, s⟩, freeHead, live } h =
      x)
    (hs : v = h.version ∨ ∀ l, s ≠ .live l) :
    location { records := t.records.setIfInBounds h.index.toNat ⟨v, s⟩, freeHead, live } =
      Function.update t.location h x := by
  obtain ⟨hnonneg, hr⟩ := location_eq_ok.mp hm
  have hi := (Array.getElem?_eq_some_iff.mp hr).1
  refine location_eq_update hx fun g hg l => ?_
  rw [location_set hi]
  split_ifs with he
  · have hne : g.version ≠ h.version := by
      intro hv
      apply hg
      cases g; cases h
      simp_all
    refine iff_of_false ?_ fun hok => ?_
    · rintro ⟨hv, hl⟩
      rcases hs with hs | hs
      · exact hne (hv.trans hs)
      · exact hs l hl
    · have := (location_eq_ok.mp hok).2
      rw [he, Int.toNat_natCast, hr] at this
      simp at this
      exact hne this.1.symm
  · rfl

theorem location_free (hf : t.free h = .ok t') :
    t'.location = Function.update t.location h (.error (.invalidHandle h)) ∧
      t'.live = t.live - 1 := by
  obtain ⟨m, hm⟩ := free_ok_iff.mp ⟨t', hf⟩
  obtain ⟨hnonneg, hr⟩ := location_eq_ok.mp hm
  have hi := (Array.getElem?_eq_some_iff.mp hr).1
  simp only [free, hm, Except.map, Except.ok.injEq] at hf
  subst hf
  refine ⟨location_set_valid hm ?_ (Or.inr (by simp)), rfl⟩
  rw [location_eq_error]
  intro l hok
  rw [location_set hi] at hok
  simp [hnonneg] at hok

theorem location_setLocation (hs : t.setLocation h l = .ok t') :
    t'.location = Function.update t.location h (.ok l) ∧ t'.live = t.live := by
  obtain ⟨m, hm⟩ := setLocation_ok_iff.mp ⟨t', hs⟩
  obtain ⟨hnonneg, hr⟩ := location_eq_ok.mp hm
  have hi := (Array.getElem?_eq_some_iff.mp hr).1
  simp only [setLocation, hm, Except.map, Except.ok.injEq] at hs
  subst hs
  refine ⟨location_set_valid hm ?_ (Or.inl rfl), rfl⟩
  rw [location_set hi]
  simp [hnonneg]

end EntityStore.HandleTable
