import Mathlib
import EntityStore.Proofs.Ascending
import EntityStore.TypeCode.Signature

/-!
# Signatures are sets

A signature, however it was built, is an ascending list, and its operations are those of sets. The
one way to get the handle type into it is to take it alone, unchecked.
-/
namespace EntityStore

namespace TypeCode

lemma le_iff {a b : TypeCode} : a ≤ b ↔ ¬b < a := Nat.not_lt.symm

lemma lt_of_le_of_ne {a b : TypeCode} (h : a ≤ b) (hne : a ≠ b) : a < b := by
  by_contra hlt
  exact hne (eq_of_not_lt hlt (le_iff.mp h))

instance : Std.Total fun a b : TypeCode => a ≤ b := ⟨fun a b => Nat.le_total a.raw b.raw⟩

instance : IsTrans TypeCode fun a b => a ≤ b := ⟨fun _ _ _ => Nat.le_trans⟩

instance : Std.Antisymm fun a b : TypeCode => a ≤ b :=
  ⟨fun _ _ h g => ext_raw (Nat.le_antisymm h g)⟩

end TypeCode

namespace Signature
open Ascending (Between getElem?_of_search between_of_search lt_of_lt)

variable {ts us : List TypeCode} {t u : TypeCode} {s s' : Signature} {i j n : Nat}
  {known : Bool} {trusted : TypeCode → Prop}

lemma place_eq (t : TypeCode) (ts : List TypeCode) : place t ts = ts.orderedInsert (· ≤ ·) t := by
  induction ts with
  | nil => rfl
  | cons a ts ih =>
    by_cases h : a < t
    · have hle : ¬t ≤ a := fun hle => TypeCode.le_iff.mp hle h
      rw [place, if_pos h, ih, List.orderedInsert_cons, if_neg hle]
    · rw [place, if_neg h, List.orderedInsert_cons, if_pos (TypeCode.le_iff.mpr h)]

lemma sort_eq (ts : List TypeCode) : sort ts = ts.insertionSort (· ≤ ·) := by
  induction ts with
  | nil => rfl
  | cons t ts ih => rw [List.insertionSort_cons, ← ih, ← place_eq, sort, sort, List.foldr_cons]

lemma sort_perm (ts : List TypeCode) : (sort ts).Perm ts := by
  rw [sort_eq]
  exact List.perm_insertionSort (· ≤ ·) ts

lemma pairwise_sort (ts : List TypeCode) : (sort ts).Pairwise (· ≤ ·) := by
  rw [sort_eq]
  exact List.pairwise_insertionSort (· ≤ ·) ts

lemma sort_congr (h : ts.Perm us) : sort ts = sort us :=
  ((sort_perm ts).trans (h.trans (sort_perm us).symm)).eq_of_pairwise' (pairwise_sort ts)
    (pairwise_sort us)

lemma pairwise_sort_iff : (sort ts).Pairwise (· < ·) ↔ ts.Nodup := by
  rw [← (sort_perm ts).nodup_iff]
  constructor
  · exact fun h => h.imp TypeCode.ne_of_lt
  · intro h
    exact ((pairwise_sort ts).and h).imp fun h => TypeCode.lt_of_le_of_ne h.1 h.2

lemma ofAscending_eq_ok : ofAscending ts = .ok s ↔
    (TypeCode.entity ∉ ts ∧ ts.Pairwise (· < ·)) ∧ s.codes = ts := by
  rw [← Ascending.validate_eq_ok, ofAscending]
  obtain ⟨codes⟩ := s
  cases Ascending.validate ts with
  | error f => simp [Except.map]
  | ok x => simp [Except.map, eq_comm]

theorem ofList_eq_ok : ofList ts = .ok s ↔
    (TypeCode.entity ∉ ts ∧ ts.Nodup) ∧ s.codes = sort ts := by
  rw [← pairwise_sort_iff, ← (sort_perm ts).mem_iff]
  exact ofAscending_eq_ok

/-- On strictly ascending lists, the handle type among them or not, the single passes are the
operations on sets: the union and the difference ascend and have the codes they should, and their
lengths tell whether they changed anything; the second list is included if all its codes are in the
first, the lists intersect if they share one; and positions are found exactly if all codes are
there, one for each code, where it stands. A list in any order is accepted as a set if and only if
its codes are different and the handle type is not among them, and its order does not matter. -/
theorem single_passes_are_set_operations {as bs : List TypeCode} (ha : as.Pairwise (· < ·))
    (hb : bs.Pairwise (· < ·)) :
    ((Ascending.union as bs).Pairwise (· < ·) ∧
      ∀ t, t ∈ Ascending.union as bs ↔ t ∈ as ∨ t ∈ bs) ∧
    ((Ascending.difference as bs).Pairwise (· < ·) ∧
      ∀ t, t ∈ Ascending.difference as bs ↔ t ∈ as ∧ t ∉ bs) ∧
    ((Ascending.union as bs).length = as.length ↔ bs ⊆ as) ∧
    ((Ascending.difference as bs).length = as.length ↔ as.Disjoint bs) ∧
    (Ascending.includesAll as bs = true ↔ bs ⊆ as) ∧
    (Ascending.intersects as bs = true ↔ ∃ t ∈ as, t ∈ bs) ∧
    ((Ascending.indicesOf as bs).isSome = Ascending.includesAll as bs ∧
      ∀ is, Ascending.indicesOf as bs = some is → is.length = bs.length ∧
        ∀ k (hk : k < bs.length), ∃ i, is[k]? = some i ∧ as[i]? = some bs[k]) ∧
    (∀ ts, (∃ s, ofList ts = .ok s) ↔ ts.Nodup ∧ TypeCode.entity ∉ ts) ∧
    (∀ ts s, ofList ts = .ok s → s.codes.Pairwise (· < ·) ∧ ∀ t, t ∈ s.codes ↔ t ∈ ts) ∧
    ∀ ts us, ts.Perm us → ofList ts = ofList us := by
  refine ⟨⟨Ascending.pairwise_union ha hb, fun t => Ascending.mem_union⟩,
    ⟨Ascending.pairwise_difference bs ha, fun t => Ascending.mem_difference ha hb⟩,
    Ascending.length_union_iff ha hb, Ascending.length_difference_iff ha hb,
    Ascending.includesAll_iff ha hb, Ascending.intersects_iff ha hb,
    ⟨Ascending.isSome_indicesFrom 0 as bs, fun is his => ?_⟩, fun ts => ?_, fun ts s hs => ?_,
    fun ts us h => ?_⟩
  · have hat := Ascending.indicesFrom_spec List.drop_zero his
    have hlength : is.length = bs.length := by simpa using congrArg List.length hat
    refine ⟨hlength, fun k hk => ⟨is[k], List.getElem?_eq_getElem _, ?_⟩⟩
    simpa [hk, hlength] using congrArg (·[k]?) hat
  · simp only [ofList_eq_ok, exists_and_left, and_comm (a := ts.Nodup)]
    exact and_iff_left ⟨⟨sort ts⟩, rfl⟩
  · obtain ⟨⟨-, hnodup⟩, hcodes⟩ := ofList_eq_ok.mp hs
    rw [hcodes]
    exact ⟨pairwise_sort_iff.mpr hnodup, fun t => (sort_perm ts).mem_iff⟩
  · rw [ofList, ofList, sort_congr h]

/-- The lists share the handle type and a type without a size, and neither includes the other. -/
theorem single_passes_are_set_operations_crossing :
    let as : List TypeCode := [.entity, ⟨3⟩, ⟨4⟩, ⟨2 ^ 31 + 2⟩]
    let bs : List TypeCode := [.entity, ⟨2⟩, ⟨2 ^ 31 + 2⟩]
    as.Pairwise (· < ·) ∧ bs.Pairwise (· < ·) ∧
      (Ascending.union as bs).length ≠ as.length ∧ Ascending.includesAll as bs = false ∧
      Ascending.intersects as bs = true ∧ Ascending.indicesOf as bs = none ∧
      ofList [⟨4⟩, ⟨2⟩, ⟨3⟩] = ofList [⟨2⟩, ⟨3⟩, ⟨4⟩] := by
  intro as bs
  have ha : as.Pairwise (· < ·) := by decide
  have hb : bs.Pairwise (· < ·) := by decide
  have hnot : ¬bs ⊆ as := by decide
  obtain ⟨-, -, hunion, -, hall, hsome, ⟨hindices, -⟩, -, -, hperm⟩ :=
    single_passes_are_set_operations ha hb
  have hincludes : Ascending.includesAll as bs = false := by
    rw [← Bool.not_eq_true, hall]
    exact hnot
  refine ⟨ha, hb, mt hunion.mp hnot, hincludes, hsome.mpr ⟨.entity, by decide, by decide⟩, ?_,
    hperm _ _ (by decide)⟩
  rw [← Option.isNone_iff_eq_none, ← Option.not_isSome, hindices, hincludes]
  rfl

theorem includes_iff (h : s.codes.Pairwise (· < ·)) : s.includes t = true ↔ t ∈ s.codes := by
  rw [includes]
  cases hsearch : s.search t with
  | ok p => exact iff_of_true rfl (List.mem_of_getElem? (getElem?_of_search hsearch))
  | error p => exact iff_of_false Bool.false_ne_true (between_of_search h hsearch).2.not_mem

lemma pairwise_insertIdx (h : ts.Pairwise (· < ·)) (hi : i ≤ ts.length)
    (hb : Between ts t i i) : (ts.insertIdx i t).Pairwise (· < ·) := by
  induction ts generalizing i with
  | nil =>
    obtain rfl := Nat.le_zero.mp hi
    simp
  | cons a ts ih =>
    have htail := List.pairwise_cons.mp h
    cases i with
    | zero =>
      refine List.pairwise_cons.mpr ⟨fun b hmem => ?_, h⟩
      obtain ⟨p, hp⟩ := List.mem_iff_getElem?.mp hmem
      exact (hb p b hp).2 (Nat.zero_le p)
    | succ i =>
      have hi' : i ≤ ts.length := Nat.le_of_succ_le_succ hi
      rw [List.insertIdx_succ_cons, List.pairwise_cons]
      refine ⟨fun b hmem => ?_, ih htail.2 hi' fun p b hp => ?_⟩
      · rcases (List.mem_insertIdx hi').mp hmem with rfl | hmem
        · exact (hb 0 a rfl).1 (Nat.succ_pos i)
        · exact htail.1 b hmem
      · have hnext := hb (p + 1) b hp
        exact ⟨fun hlt => hnext.1 (by omega), fun hle => hnext.2 (by omega)⟩

/-- The codes in a signature. -/
def members (s : Signature) : Set TypeCode := {t | t ∈ s.codes}

@[simp] lemma mem_members : t ∈ s.members ↔ t ∈ s.codes := Iff.rfl

lemma eq_of_members (h : s.codes.Pairwise (· < ·)) (h' : s'.codes.Pairwise (· < ·))
    (hmem : s.members = s'.members) : s = s' := by
  obtain ⟨ts⟩ := s
  obtain ⟨us⟩ := s'
  exact congrArg Signature.mk (h.eq_of_mem_iff h' fun t => Set.ext_iff.mp hmem t)

lemma validate_singleton (t : TypeCode) : Ascending.validate [t] =
    if t = .entity then .error (.invalidArgument .handleType) else .ok () := by
  by_cases ht : t = .entity
  · rw [if_pos ht, ht]
    rfl
  · rw [if_neg ht, Ascending.validate_eq_ok]
    exact ⟨fun hmem => ht (List.mem_singleton.mp hmem).symm, List.pairwise_singleton _ _⟩

/-- A code is inserted at its place, unless it is there or is that of handles. -/
theorem insert_spec (h : s.codes.Pairwise (· < ·)) (t : TypeCode) :
    if t = .entity then s.insert t = .error (.invalidArgument .handleType)
    else ∃ new s', s.insert t = .ok (new, s') ∧ s'.codes.Pairwise (· < ·) ∧
      s'.members = Insert.insert t s.members ∧ (new = true ↔ t ∉ s.members) := by
  rw [insert, validate_singleton]
  split_ifs with ht
  · rfl
  · rw [Except.map]
    cases hsearch : s.search t with
    | ok p =>
      have hmem : t ∈ s.members := List.mem_of_getElem? (getElem?_of_search hsearch)
      exact ⟨false, s, rfl, h, (Set.insert_eq_of_mem hmem).symm, by simpa using hmem⟩
    | error p =>
      obtain ⟨hp, hbetween⟩ := between_of_search h hsearch
      refine ⟨true, _, rfl, pairwise_insertIdx h hp hbetween, Set.ext fun u => ?_,
        iff_of_true rfl hbetween.not_mem⟩
      exact List.mem_insertIdx hp

theorem erase_spec (h : s.codes.Pairwise (· < ·)) (t : TypeCode) :
    (s.erase t).2.codes.Pairwise (· < ·) ∧ (s.erase t).2.members = s.members \ {t} ∧
      ((s.erase t).1 = true ↔ t ∈ s.members) := by
  rw [erase]
  cases hsearch : s.search t with
  | ok p =>
    have hp := getElem?_of_search hsearch
    refine ⟨h.eraseIdx p, Set.ext fun u => ?_, iff_of_true rfl (List.mem_of_getElem? hp)⟩
    simp only [mem_members, List.mem_eraseIdx_iff_getElem?, Set.mem_sdiff, Set.mem_singleton_iff]
    constructor
    · rintro ⟨q, hne, hq⟩
      refine ⟨List.mem_of_getElem? hq, ?_⟩
      rintro rfl
      rcases Nat.lt_or_gt_of_ne hne with hlt | hlt
      · exact TypeCode.lt_irrefl u (lt_of_lt h hq hp hlt)
      · exact TypeCode.lt_irrefl u (lt_of_lt h hp hq hlt)
    · rintro ⟨hmem, hne⟩
      obtain ⟨q, hq⟩ := List.mem_iff_getElem?.mp hmem
      refine ⟨q, ?_, hq⟩
      rintro rfl
      exact hne (Option.some.inj (hq.symm.trans hp))
  | error p =>
    have hnot : t ∉ s.members := (between_of_search h hsearch).2.not_mem
    exact ⟨h, (Set.sdiff_singleton_eq_self hnot).symm, iff_of_false Bool.false_ne_true hnot⟩

/-- Signatures as they are built, where the codes of some kind are taken alone without a check. -/
inductive Built (trusted : TypeCode → Prop) : Signature → Prop
  | empty : Built trusted empty
  | ofList {ts : List TypeCode} {s : Signature} (h : ofList ts = .ok s) : Built trusted s
  | ofAscending {ts : List TypeCode} {s : Signature} (h : ofAscending ts = .ok s) : Built trusted s
  | single {t : TypeCode} (ht : trusted t) : Built trusted (single t)
  | insert {s s' : Signature} {t : TypeCode} {new : Bool} (hs : Built trusted s)
      (h : s.insert t = .ok (new, s')) : Built trusted s'
  | erase {s : Signature} (hs : Built trusted s) (t : TypeCode) : Built trusted (s.erase t).2
  | union {s s' : Signature} (hs : Built trusted s) (hs' : Built trusted s') :
      Built trusted (s.union s')
  | difference {s s' : Signature} (hs : Built trusted s) (hs' : Built trusted s') :
      Built trusted (s.difference s')

lemma of_insert (h : s.codes.Pairwise (· < ·)) (hi : s.insert t = .ok (known, s')) :
    t ≠ .entity ∧ s'.codes.Pairwise (· < ·) ∧ s'.members = Insert.insert t s.members := by
  have hspec := insert_spec h t
  split_ifs at hspec with ht
  · rw [hspec] at hi
    cases hi
  · obtain ⟨new, s'', hnew, hasc, hmem, -⟩ := hspec
    rw [hnew, Except.ok.injEq, Prod.mk.injEq] at hi
    obtain ⟨-, rfl⟩ := hi
    exact ⟨ht, hasc, hmem⟩

theorem Built.ascending (hs : Built trusted s) : s.codes.Pairwise (· < ·) := by
  induction hs with
  | empty => exact List.Pairwise.nil
  | ofList h =>
    obtain ⟨⟨-, hnodup⟩, hcodes⟩ := ofList_eq_ok.mp h
    rw [hcodes]
    exact pairwise_sort_iff.mpr hnodup
  | ofAscending h =>
    obtain ⟨⟨-, hasc⟩, hcodes⟩ := ofAscending_eq_ok.mp h
    rwa [hcodes]
  | single ht => exact List.pairwise_singleton _ _
  | insert hs h ih => exact (of_insert ih h).2.1
  | erase hs t ih => exact (erase_spec ih t).1
  | union hs hs' ih ih' => exact Ascending.pairwise_union ih ih'
  | difference hs hs' ih ih' => exact Ascending.pairwise_difference _ ih

/-- The handle type gets into a signature where it was trusted, and in no other way. -/
theorem Built.trusted_of_mem (hs : Built trusted s) (hmem : TypeCode.entity ∈ s.members) :
    trusted .entity := by
  induction hs with
  | empty => cases hmem
  | ofList h =>
    obtain ⟨⟨hnot, -⟩, hcodes⟩ := ofList_eq_ok.mp h
    rw [mem_members, hcodes, (sort_perm _).mem_iff] at hmem
    exact absurd hmem hnot
  | ofAscending h =>
    obtain ⟨⟨hnot, -⟩, hcodes⟩ := ofAscending_eq_ok.mp h
    rw [mem_members, hcodes] at hmem
    exact absurd hmem hnot
  | single ht => rwa [List.mem_singleton.mp hmem]
  | insert hs h ih =>
    obtain ⟨hne, -, hmembers⟩ := of_insert hs.ascending h
    rw [hmembers, Set.mem_insert_iff] at hmem
    exact ih (hmem.resolve_left hne.symm)
  | erase hs t ih =>
    rw [(erase_spec hs.ascending t).2.1] at hmem
    exact ih hmem.1
  | union hs hs' ih ih' => exact (Ascending.mem_union.mp hmem).elim ih ih'
  | difference hs hs' ih ih' =>
    exact ih ((Ascending.mem_difference hs.ascending hs'.ascending).mp hmem).1

/-- Signatures that are built in any way ascend, and unless the handle type was taken alone they are
without it, as the check asks. What they include, what insertions, removals, unions and differences
make of them, and when two are the same, is as for the sets of their codes. Insertions and removals
tell whether they changed anything. The handle type is not inserted. -/
theorem built_signatures_are_sets (hs : Built trusted s) :
    s.codes.Pairwise (· < ·) ∧
    (Ascending.validate s.codes = .ok () ↔ TypeCode.entity ∉ s.members) ∧
    (TypeCode.entity ∈ s.members → trusted .entity) ∧
    (∀ t, s.includes t = true ↔ t ∈ s.members) ∧
    s.insert .entity = .error (.invalidArgument .handleType) ∧
    (∀ t, t ≠ .entity → ∃ new s', s.insert t = .ok (new, s') ∧
      s'.members = Insert.insert t s.members ∧ (new = true ↔ s' ≠ s)) ∧
    (∀ t, (s.erase t).2.members = s.members \ {t} ∧ ((s.erase t).1 = true ↔ (s.erase t).2 ≠ s)) ∧
    ∀ s', Built trusted s' → (s.union s').members = s.members ∪ s'.members ∧
      (s.difference s').members = s.members \ s'.members ∧ (s = s' ↔ s.members = s'.members) := by
  have hasc := hs.ascending
  refine ⟨hasc, ?_, hs.trusted_of_mem, fun t => includes_iff hasc, insert_spec hasc .entity,
    fun t ht => ?_, fun t => ?_, fun s' hs' => ⟨?_, ?_, ?_⟩⟩
  · rw [Ascending.validate_eq_ok, and_iff_left hasc, mem_members]
  · have hspec := insert_spec hasc t
    rw [if_neg ht] at hspec
    obtain ⟨new, s', hi, hasc', hmem, hnew⟩ := hspec
    have hsame : s' = s ↔ t ∈ s.members := by
      rw [← Set.insert_eq_self, ← hmem]
      exact ⟨congrArg members, eq_of_members hasc' hasc⟩
    exact ⟨new, s', hi, hmem, by rw [hnew, Ne, hsame]⟩
  · obtain ⟨hasc', hmem, hthere⟩ := erase_spec hasc t
    have hsame : (s.erase t).2 = s ↔ t ∉ s.members := by
      rw [← Set.disjoint_singleton_right, ← sdiff_eq_left, ← hmem]
      exact ⟨congrArg members, eq_of_members hasc' hasc⟩
    exact ⟨hmem, by rw [hthere, Ne, hsame, not_not]⟩
  · exact Set.ext fun t => Ascending.mem_union
  · exact Set.ext fun t => Ascending.mem_difference hasc hs'.ascending
  · exact ⟨congrArg members, eq_of_members hasc hs'.ascending⟩

/-- Of three types one is taken out and another one is put in by a union. -/
theorem built_signatures_are_sets_mixed :
    let s : Signature := ⟨[⟨2⟩, ⟨7⟩, ⟨2 ^ 31 + 4⟩]⟩
    let u := (s.erase ⟨7⟩).2.union (single ⟨5⟩)
    ofList [⟨2 ^ 31 + 4⟩, ⟨7⟩, ⟨2⟩] = .ok s ∧ Built (· ≠ TypeCode.entity) u ∧
      u.codes = [⟨2⟩, ⟨5⟩, ⟨2 ^ 31 + 4⟩] ∧ Ascending.validate u.codes = .ok () ∧
      u.includes ⟨5⟩ = true ∧ (u.erase ⟨5⟩).2.members = u.members \ {⟨5⟩} ∧
      ∃ new s', u.insert ⟨3⟩ = .ok (new, s') ∧ s'.members = Insert.insert ⟨3⟩ u.members := by
  intro s u
  have hs : ofList [⟨2 ^ 31 + 4⟩, ⟨7⟩, ⟨2⟩] = .ok s := by rfl
  have hcodes : u.codes = [⟨2⟩, ⟨5⟩, ⟨2 ^ 31 + 4⟩] := by decide +kernel
  have hbuilt : Built (· ≠ TypeCode.entity) u :=
    ((Built.ofList hs).erase ⟨7⟩).union (.single (by decide))
  obtain ⟨-, hvalid, htrusted, hincludes, -, hinsert, herase, -⟩ :=
    built_signatures_are_sets hbuilt
  obtain ⟨new, s', hi, hmem, -⟩ := hinsert ⟨3⟩ (by decide)
  refine ⟨hs, hbuilt, hcodes, hvalid.mpr fun hmem => htrusted hmem rfl, ?_, (herase ⟨5⟩).1,
    new, s', hi, hmem⟩
  rw [hincludes, mem_members, hcodes]
  decide

/-- The handle type taken alone is a signature that the check refuses. -/
theorem handle_type_taken_alone : Built (fun _ => True) (single .entity) ∧
    TypeCode.entity ∈ (single .entity).members ∧
    Ascending.validate (single .entity).codes = .error (.invalidArgument .handleType) :=
  ⟨.single trivial, List.mem_singleton.mpr rfl, rfl⟩

end Signature

end EntityStore
