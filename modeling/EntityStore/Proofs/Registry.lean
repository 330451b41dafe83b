import Mathlib
import EntityStore.Registry

/-!
# The registry only grows

A code says at which number of the registry it was given out, so its registration is found again,
and registering further kinds changes no registration that exists.
-/
namespace EntityStore

namespace TypeCode

lemma index_ofParts {i : Nat} (hi : i < indexLimit) (m : Markers) (z : Bool) :
    (ofParts i m z).index = i := by
  unfold indexLimit at hi
  simp only [index, ofParts, indexLimit, Markers.bits]
  split_ifs <;> omega

lemma markers_ofParts {i : Nat} (hi : i < indexLimit) (m : Markers) (z : Bool) :
    (ofParts i m z).markers = m := by
  unfold indexLimit at hi
  obtain ⟨p, d⟩ := m
  cases p <;> cases d <;> cases z <;>
    simp [markers, prefab, disabled, ofParts, Markers.bits] <;> omega

end TypeCode

namespace Registry

variable {r r' : Registry} {t : TypeCode} {e : Registration} {k : Kind} {m : Markers}

structure Valid (r : Registry) : Prop where
  limit : r.maxTypes ≤ TypeCode.indexLimit
  size : r.entries.size ≤ r.maxTypes
  first : ∃ name, r.entries[0]? = some ⟨.entity, .handle name⟩
  coded : ∀ (i : Nat) e, r.entries[i]? = some e →
    e.code = TypeCode.ofParts i e.code.markers (e.kind.size = 0)
  memo : ∀ k m t, r.lookup k m = some t ↔ t.markers = m ∧ (⟨t, k⟩ : Registration) ∈ r.entries

/-- Every registration of `r` is one of `r'`. -/
def Extends (r r' : Registry) : Prop :=
  ∀ t e, r.registration t = .ok e → r'.registration t = .ok e

lemma Extends.refl (r : Registry) : r.Extends r := fun _ _ h => h

lemma registration_eq_ok :
    r.registration t = .ok e ↔ r.entries[t.index]? = some e ∧ e.code = t := by
  unfold registration
  split
  next f hf =>
    rw [hf]
    split_ifs with hc
    · simp only [Except.ok.injEq, Option.some.injEq]
      exact ⟨fun h => ⟨h, h ▸ hc⟩, fun h => h.1⟩
    · simp only [Option.some.injEq, false_iff, not_and]
      exact fun h => h ▸ hc
  next hf => simp [hf]

lemma code_of_registration (h : r.registration t = .ok e) : e.code = t :=
  (registration_eq_ok.mp h).2

lemma Valid.index_lt (h : r.Valid) {i : Nat} (hi : r.entries[i]? = some e) :
    i < TypeCode.indexLimit := by
  have := (Array.getElem?_eq_some_iff.mp hi).1
  have := h.size
  have := h.limit
  omega

lemma Valid.registration_code (h : r.Valid) {i : Nat} (hi : r.entries[i]? = some e) :
    r.registration e.code = .ok e := by
  rw [registration_eq_ok]
  refine ⟨?_, rfl⟩
  rw [h.coded i e hi, TypeCode.index_ofParts (h.index_lt hi), hi]

lemma Valid.entity (h : r.Valid) :
    ∃ name, r.registration .entity = .ok ⟨.entity, .handle name⟩ := by
  obtain ⟨name, hname⟩ := h.first
  exact ⟨name, h.registration_code hname⟩

lemma lookup_memo_cons (key key' : Kind × Markers) (t : TypeCode)
    (memo : List ((Kind × Markers) × TypeCode)) :
    List.lookup key ((key', t) :: memo) = if key = key' then some t else memo.lookup key := by
  rw [List.lookup_cons]
  by_cases h : key = key'
  · rw [if_pos h, beq_iff_eq.mpr h]
  · rw [if_neg h, beq_eq_false_iff_ne.mpr h]

lemma valid_new (name : String) (maxTypes : Nat) : (new name maxTypes).Valid where
  limit := by simp only [new, TypeCode.indexLimit]; omega
  size := by simp only [new, List.size_toArray, List.length_singleton]; omega
  first := ⟨name, by simp [new]⟩
  coded := by
    intro i e hi
    obtain ⟨hlt, he⟩ := Array.getElem?_eq_some_iff.mp hi
    obtain rfl : i = 0 := by simp [new] at hlt; omega
    subst he
    simp [new, TypeCode.entity, TypeCode.ofParts, TypeCode.markers, TypeCode.prefab,
      TypeCode.disabled, Markers.bits, Kind.handle]
  memo := by
    intro k m t
    have hentity : TypeCode.entity.markers = .none := by decide
    simp only [lookup, new, lookup_memo_cons, List.lookup_nil, List.mem_toArray, List.mem_singleton,
      Registration.mk.injEq]
    split_ifs with hkm
    · obtain ⟨rfl, rfl⟩ := Prod.mk.inj hkm
      rw [Option.some_inj]
      constructor
      · rintro rfl
        exact ⟨hentity, rfl, rfl⟩
      · exact fun h => h.2.1.symm
    · refine iff_of_false (by simp) ?_
      rintro ⟨rfl, rfl, rfl⟩
      exact hkm (by rw [hentity])

/-- A kind is looked up as the code under which it is registered. -/
theorem lookup_eq_some (h : r.Valid) :
    r.lookup k m = some t ↔ t.markers = m ∧ r.registration t = .ok ⟨t, k⟩ := by
  rw [h.memo, registration_eq_ok]
  refine and_congr_right fun _ => ⟨fun hmem => ?_, fun hreg => Array.mem_of_getElem? hreg.1⟩
  obtain ⟨i, hi⟩ := Array.mem_iff_getElem?.mp hmem
  exact registration_eq_ok.mp (h.registration_code hi)

/-- The registry with one more kind, under the next number. -/
def push (r : Registry) (k : Kind) (m : Markers) : Registry :=
  { r with
    entries := r.entries.push ⟨TypeCode.ofParts r.entries.size m (k.size = 0), k⟩
    memo := ((k, m), TypeCode.ofParts r.entries.size m (k.size = 0)) :: r.memo }

lemma lookup_push (r : Registry) (k k' : Kind) (m m' : Markers) : (r.push k m).lookup k' m' =
    if (k', m') = (k, m) then some (TypeCode.ofParts r.entries.size m (k.size = 0))
    else r.lookup k' m' :=
  lookup_memo_cons _ _ _ _

/-- A registration that succeeds finds the kind or puts it behind the others. -/
lemma register_eq_ok : r.register k m = .ok (t, r') ↔
    (r.lookup k m = some t ∧ r' = r) ∨
    (r.lookup k m = none ∧ k.size ≤ Kind.sizeLimit ∧ k.align ≤ columnAlign ∧
      r.entries.size < r.maxTypes ∧ t = TypeCode.ofParts r.entries.size m (k.size = 0) ∧
      r' = r.push k m) := by
  unfold register
  cases hl : r.lookup k m with
  | some u => simp [eq_comm]
  | none =>
    simp only
    split_ifs with hsize halign hfull
    · simp [Nat.not_le.mpr hsize]
    · simp [Nat.not_le.mpr halign]
    · simp [Nat.not_lt.mpr hfull]
    · simp only [Except.ok.injEq, Prod.mk.injEq, false_and, true_and, false_or, not_lt.mp hsize,
        not_lt.mp halign, not_le.mp hfull]
      exact ⟨fun h => ⟨h.1.symm, h.2.symm⟩, fun h => ⟨h.1.symm, h.2.symm⟩⟩

lemma registration_push (he : r.registration t = .ok e) :
    (r.push k m).registration t = .ok e := by
  rw [registration_eq_ok] at he ⊢
  obtain ⟨hi, hc⟩ := he
  refine ⟨?_, hc⟩
  have hlt := (Array.getElem?_eq_some_iff.mp hi).1
  rw [push, Array.getElem?_push_lt hlt, ← hi, Array.getElem?_eq_getElem hlt]

lemma valid_push (h : r.Valid) (hroom : r.entries.size < r.maxTypes)
    (hnew : r.lookup k m = none) : (r.push k m).Valid := by
  have hlimit : r.entries.size < TypeCode.indexLimit := hroom.trans_le h.limit
  have hmarkers : (TypeCode.ofParts r.entries.size m (k.size = 0)).markers = m :=
    TypeCode.markers_ofParts hlimit _ _
  refine ⟨h.limit, by simpa [push] using hroom, ?_, ?_, ?_⟩
  · obtain ⟨name, hname⟩ := h.first
    have hlt := (Array.getElem?_eq_some_iff.mp hname).1
    exact ⟨name, by rw [push, Array.getElem?_push_lt hlt, ← hname, Array.getElem?_eq_getElem hlt]⟩
  · intro i e hi
    rw [push, Array.getElem?_push] at hi
    split_ifs at hi with hsize
    · obtain rfl := Option.some.inj hi
      simp only [hsize, hmarkers]
    · exact h.coded i e hi
  · intro k' m' t
    rw [lookup_push]
    simp only [push, Array.mem_push, Registration.mk.injEq]
    by_cases hkm : (k', m') = (k, m)
    · obtain ⟨rfl, rfl⟩ := Prod.mk.inj hkm
      rw [if_pos rfl, Option.some_inj]
      constructor
      · rintro rfl
        exact ⟨hmarkers, .inr ⟨rfl, rfl⟩⟩
      · rintro ⟨hm, hmem | ⟨rfl, -⟩⟩
        · rw [(h.memo k' m' t).mpr ⟨hm, hmem⟩] at hnew
          cases hnew
        · rfl
    · rw [if_neg hkm, h.memo]
      refine and_congr_right fun hm => (or_iff_left ?_).symm
      rintro ⟨rfl, rfl⟩
      exact hkm (by rw [← hm, hmarkers])

/-- Registering a kind answers its code, and leaves every earlier registration in place. -/
theorem register_spec (h : r.Valid) (hr : r.register k m = .ok (t, r')) :
    r'.Valid ∧ r.Extends r' ∧ r'.lookup k m = some t := by
  rcases register_eq_ok.mp hr with ⟨hl, rfl⟩ | ⟨hl, -, -, hroom, rfl, rfl⟩
  · exact ⟨h, Extends.refl r', hl⟩
  · refine ⟨valid_push h hroom hl, fun t e he => registration_push he, ?_⟩
    rw [lookup_push, if_pos rfl]

lemma registrations_eq_ok {ts : List TypeCode} {es : List Registration} :
    r.registrations ts = .ok es ↔ List.Forall₂ (fun t e => r.registration t = .ok e) ts es := by
  induction ts generalizing es with
  | nil => simp [registrations, eq_comm]
  | cons t ts ih =>
    rw [registrations]
    split
    next f hf => simp [hf, List.forall₂_cons_left_iff]
    next e he =>
      cases hrest : r.registrations ts with
      | error f =>
        simp only [Except.map, reduceCtorEq, false_iff, List.forall₂_cons_left_iff, not_exists,
          not_and]
        intro e' es' _ hes' _
        rw [ih.mpr hes'] at hrest
        simp at hrest
      | ok es' =>
        simp only [Except.map, Except.ok.injEq, List.forall₂_cons_left_iff]
        constructor
        · rintro rfl
          exact ⟨e, es', he, ih.mp hrest, rfl⟩
        · rintro ⟨f, fs, hf, hfs, rfl⟩
          rw [he] at hf
          rw [ih.mpr hfs] at hrest
          rw [Except.ok.inj hf, Except.ok.inj hrest]

lemma codes_of_registrations {ts : List TypeCode} {es : List Registration}
    (h : r.registrations ts = .ok es) : es.map Registration.code = ts := by
  have hf := registrations_eq_ok.mp h
  induction hf with
  | nil => rfl
  | cons he _ ih => rw [List.map_cons, code_of_registration he, ih (registrations_eq_ok.mpr ‹_›)]

lemma registration_of_mem {ts : List TypeCode} {es : List Registration}
    (h : r.registrations ts = .ok es) (he : e ∈ es) : r.registration e.code = .ok e := by
  have hf := registrations_eq_ok.mp h
  induction hf with
  | nil => simp at he
  | cons hd htail ih =>
    rcases List.mem_cons.mp he with rfl | he
    · rw [code_of_registration hd]
      exact hd
    · exact ih (registrations_eq_ok.mpr htail) he

lemma Extends.registrations (h : r.Extends r') {ts : List TypeCode} {es : List Registration}
    (hes : r.registrations ts = .ok es) : r'.registrations ts = .ok es := by
  rw [registrations_eq_ok] at hes ⊢
  exact hes.imp fun t e he => h t e he

end Registry

end EntityStore
