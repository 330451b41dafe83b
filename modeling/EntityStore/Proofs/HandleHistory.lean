import Mathlib
import EntityStore.Proofs.FreeChain
import EntityStore.Proofs.HandleTable

/-!
# The history of a handle table

A history lists the handles that a table issued and freed, in order. The table tells nothing else:
the valid handles are those that were issued and not freed since, each slot numbers its handles in
turn, and a slot is only added when every other one is live.
-/
namespace EntityStore.HandleTable

inductive Event
  | issued (handle : Handle)
  | freed (handle : Handle)
  deriving DecidableEq, Repr

/-- The handles that were issued, in order. -/
def issued (es : List Event) : List Handle :=
  es.filterMap fun
    | .issued h => some h
    | .freed _ => none

/-- The handles that were freed, in order. -/
def freed (es : List Event) : List Handle :=
  es.filterMap fun
    | .issued _ => none
    | .freed h => some h

def timesFreed (es : List Event) (i : Int) : Nat := (freed es).countP fun h => h.index = i

/-- A handle was issued and has not been freed since. -/
def Standing (es : List Event) (h : Handle) : Prop :=
  ∃ before behind, es = before ++ .issued h :: behind ∧ .freed h ∉ behind

/-- Handles are only freed after they were issued. -/
def Ordered (es : List Event) : Prop :=
  ∀ before h behind, es = before ++ .freed h :: behind → h ∈ issued before

/-- How many handles have been issued and not freed. -/
def population (es : List Event) : Nat := (issued es).length - (freed es).length

/-- The largest population there has been. -/
def peak (es : List Event) : Nat :=
  (Finset.range (es.length + 1)).sup fun n => population (es.take n)

/-- The handle that a slot gets when it is issued for the `k`-th time. -/
def serial (i k : Nat) : Handle := ⟨i, UInt32.ofNat (k + 1)⟩

variable {t u t' : HandleTable} {h g : Handle} {l : Option Location} {es fs : List Event}
  {i n : Nat}

@[simp] lemma issued_append (es fs : List Event) : issued (es ++ fs) = issued es ++ issued fs :=
  List.filterMap_append

@[simp] lemma freed_append (es fs : List Event) : freed (es ++ fs) = freed es ++ freed fs :=
  List.filterMap_append

@[simp] lemma issued_issued (h : Handle) : issued [.issued h] = [h] := rfl

@[simp] lemma issued_freed (h : Handle) : issued [.freed h] = [] := rfl

@[simp] lemma freed_issued (h : Handle) : freed [.issued h] = [] := rfl

@[simp] lemma freed_freed (h : Handle) : freed [.freed h] = [h] := rfl

lemma mem_issued : h ∈ issued es ↔ .issued h ∈ es := by
  rw [issued, List.mem_filterMap]
  constructor
  · rintro ⟨e, he, hh⟩
    cases e with
    | issued g => rwa [← Option.some.inj hh]
    | freed g => cases hh
  · exact fun he => ⟨_, he, rfl⟩

lemma not_standing_nil : ¬ Standing [] h := by
  rintro ⟨before, behind, he, -⟩
  simp at he

lemma standing_concat {e : Event} : Standing (es ++ [e]) h ↔
    e = .issued h ∨ e ≠ .freed h ∧ Standing es h := by
  constructor
  · rintro ⟨before, behind, he, hnot⟩
    rcases List.eq_nil_or_concat behind with rfl | ⟨behind, x, rfl⟩
    · exact .inl (List.singleton_inj.mp (List.append_inj' he rfl).2)
    · rw [List.concat_eq_append, ← List.cons_append, ← List.append_assoc] at he
      obtain ⟨hes, hx⟩ := List.append_inj' he rfl
      obtain rfl := List.singleton_inj.mp hx
      simp only [List.concat_eq_append, List.mem_append, List.mem_singleton, not_or] at hnot
      exact .inr ⟨Ne.symm hnot.2, before, behind, hes, hnot.1⟩
  · rintro (rfl | ⟨hne, before, behind, rfl, hnot⟩)
    · exact ⟨es, [], rfl, List.not_mem_nil⟩
    · refine ⟨before, behind ++ [e], by simp, ?_⟩
      simp only [List.mem_append, List.mem_singleton, not_or]
      exact ⟨hnot, Ne.symm hne⟩

lemma Standing.mem_issued (hs : Standing es h) : h ∈ issued es := by
  obtain ⟨before, behind, rfl, -⟩ := hs
  exact HandleTable.mem_issued.mpr (by simp)

lemma Ordered.concat {e : Event} (ho : Ordered es) (he : ∀ h, e = .freed h → h ∈ issued es) :
    Ordered (es ++ [e]) := by
  intro before h behind hes
  rcases List.eq_nil_or_concat behind with rfl | ⟨behind, x, rfl⟩
  · obtain ⟨rfl, hlast⟩ := List.append_inj' hes rfl
    exact he h (List.singleton_inj.mp hlast)
  · rw [List.concat_eq_append, ← List.cons_append, ← List.append_assoc] at hes
    exact ho before h behind (List.append_inj' hes rfl).1

lemma peak_concat (es : List Event) (e : Event) :
    peak (es ++ [e]) = max (peak es) (population (es ++ [e])) := by
  have hprefix : ∀ n ∈ Finset.range (es.length + 1),
      population ((es ++ [e]).take n) = population (es.take n) := by
    intro n hn
    rw [List.take_append_of_le_length (Nat.lt_succ_iff.mp (Finset.mem_range.mp hn))]
  rw [peak, List.length_append, List.length_singleton, Finset.range_add_one, Finset.sup_insert,
    Finset.sup_congr rfl hprefix, List.take_of_length_le (by simp), sup_comm]
  rfl

/-- As long as a slot has not been freed too often its handles are all different. -/
lemma serial_injOn (i : Nat) : Set.InjOn (serial i) {k | k < 2 ^ 32} := by
  intro j hj k hk hjk
  have hversion : UInt32.ofNat (j + 1) = UInt32.ofNat (k + 1) := congrArg Handle.version hjk
  have hnat := congrArg UInt32.toNat hversion
  simp only [UInt32.toNat_ofNat'] at hnat
  simp only [Set.mem_ofPred_eq] at hj hk
  omega

def serials (i n : Nat) : List Handle := (List.range n).map (serial i)

lemma serials_succ (i n : Nat) : serials i (n + 1) = serials i n ++ [serial i n] := by
  simp [serials, List.range_succ]

lemma nodup_serials (hn : n ≤ 2 ^ 32) : (serials i n).Nodup := by
  refine List.Nodup.map_on (fun j hj k hk hjk => ?_) List.nodup_range
  exact serial_injOn i ((List.mem_range.mp hj).trans_le hn) ((List.mem_range.mp hk).trans_le hn) hjk

def issuedFor (es : List Event) (i : Nat) : List Handle :=
  (issued es).filter fun h => h.index = (i : Int)

/-- A slot has issued its handles in turn: one more than it has freed if it is live, otherwise as
many. Its version is that of the latest, or the next. -/
def Numbered (i : Nat) (handles : List Handle) (frees : Nat) : Option Record → Prop
  | none => handles = [] ∧ frees = 0
  | some ⟨v, .live _⟩ => v = UInt32.ofNat (frees + 1) ∧ handles = serials i (frees + 1)
  | some ⟨v, .free _⟩ => v = UInt32.ofNat (frees + 1) ∧ handles = serials i frees

def Slot.next? : Slot → Option (Option Nat)
  | live _ => none
  | free next => some next

def links (t : HandleTable) (i : Nat) : Option (Option Nat) :=
  t.records[i]?.bind fun r => r.slot.next?

lemma links_eq_some {next : Option Nat} :
    t.links i = some next ↔ ∃ v, t.records[i]? = some ⟨v, .free next⟩ := by
  rw [links, Option.bind_eq_some_iff]
  constructor
  · rintro ⟨⟨v, s⟩, hr, hs⟩
    cases s with
    | live l => cases hs
    | free m =>
      obtain rfl := Option.some.inj hs
      exact ⟨v, hr⟩
  · rintro ⟨v, hr⟩
    exact ⟨_, hr, rfl⟩

lemma allocate_eq_ok (ha : t.allocate = .ok (h, t')) :
    (∃ i v next, t.freeHead = some i ∧ t.records[i]? = some ⟨v, .free next⟩ ∧ h = ⟨i, v⟩ ∧
      t' = ⟨t.records.setIfInBounds i ⟨v, .live none⟩, next, t.live + 1⟩) ∨
    (t.freeHead = none ∧ h = ⟨t.records.size, 1⟩ ∧
      t' = ⟨t.records.push ⟨1, .live none⟩, none, t.live + 1⟩) := by
  unfold allocate at ha
  split at ha
  next i hf =>
    split at ha
    next v next hr =>
      obtain ⟨rfl, rfl⟩ := Prod.mk.inj (Except.ok.inj ha)
      exact .inl ⟨i, v, next, hf, hr, rfl, rfl⟩
    next => cases ha
  next hf =>
    split_ifs at ha
    obtain ⟨rfl, rfl⟩ := Prod.mk.inj (Except.ok.inj ha)
    exact .inr ⟨hf, rfl, by rw [hf]⟩

lemma free_eq_ok (hf : t.free h = .ok t') : ∃ (i : Nat) (l : Option Location),
    h.index = i ∧ t.records[i]? = some ⟨h.version, .live l⟩ ∧
      t' = ⟨t.records.setIfInBounds i ⟨h.version + 1, .free t.freeHead⟩, some i, t.live - 1⟩ := by
  obtain ⟨l, hl⟩ := free_ok_iff.mp ⟨t', hf⟩
  obtain ⟨hnonneg, hr⟩ := location_eq_ok.mp hl
  simp only [free, hl, Except.map, Except.ok.injEq] at hf
  exact ⟨h.index.toNat, l, (Int.toNat_of_nonneg hnonneg).symm, hr, hf.symm⟩

lemma setLocation_eq_ok (hs : t.setLocation h l = .ok t') : ∃ (i : Nat) (m : Option Location),
    t.records[i]? = some ⟨h.version, .live m⟩ ∧
      t' = ⟨t.records.setIfInBounds i ⟨h.version, .live l⟩, t.freeHead, t.live⟩ := by
  obtain ⟨m, hm⟩ := setLocation_ok_iff.mp ⟨t', hs⟩
  obtain ⟨-, hr⟩ := location_eq_ok.mp hm
  simp only [setLocation, hm, Except.map, Except.ok.injEq] at hs
  exact ⟨h.index.toNat, m, hr, hs.symm⟩

/-- Calls of the operations of a table, one after the other, with the handles that they issue and
free. -/
inductive Runs (t : HandleTable) : List Event → HandleTable → Prop
  | refl : Runs t [] t
  | allocated {u t' : HandleTable} {es : List Event} {h : Handle} (hr : Runs t es u)
      (ha : u.allocate = .ok (h, t')) : Runs t (es ++ [.issued h]) t'
  | freed {u t' : HandleTable} {es : List Event} {h : Handle} (hr : Runs t es u)
      (hf : u.free h = .ok t') : Runs t (es ++ [.freed h]) t'
  | located {u t' : HandleTable} {es : List Event} {h : Handle} {l : Option Location}
      (hr : Runs t es u) (hl : u.setLocation h l = .ok t') : Runs t es t'

lemma Runs.trans (hr : Runs t es u) (hr' : Runs u fs t') : Runs t (es ++ fs) t' := by
  induction hr' with
  | refl => rwa [List.append_nil]
  | allocated _ ha ih =>
    rw [← List.append_assoc]
    exact .allocated ih ha
  | freed _ hf ih =>
    rw [← List.append_assoc]
    exact .freed ih hf
  | located _ hl ih => exact .located ih hl

lemma size_le_of_allocate (ht : t.records.size ≤ limit) (ha : t.allocate = .ok (h, t')) :
    t'.records.size ≤ limit := by
  unfold allocate at ha
  split at ha
  next =>
    split at ha
    next =>
      obtain ⟨-, rfl⟩ := Prod.mk.inj (Except.ok.inj ha)
      simpa using ht
    next => cases ha
  next =>
    split_ifs at ha with hfull
    obtain ⟨-, rfl⟩ := Prod.mk.inj (Except.ok.inj ha)
    simpa using not_le.mp hfull

lemma Runs.size_le (hr : Runs t es u) (ht : t.records.size ≤ limit) : u.records.size ≤ limit := by
  induction hr with
  | refl => exact ht
  | allocated _ ha ih => exact size_le_of_allocate ih ha
  | freed _ hf ih =>
    obtain ⟨_, _, -, -, rfl⟩ := free_eq_ok hf
    simpa using ih
  | located _ hl ih =>
    obtain ⟨_, _, -, rfl⟩ := setLocation_eq_ok hl
    simpa using ih

/-- The slot numbers of valid handles are no larger than a signed word of four bytes. -/
lemma Runs.index_bounds (hr : Runs {} es t) (hl : t.location h = .ok l) :
    0 ≤ h.index ∧ h.index < 2 ^ 31 := by
  obtain ⟨hnonneg, hrecord⟩ := location_eq_ok.mp hl
  have hlt := (Array.getElem?_eq_some_iff.mp hrecord).1
  have hsize := hr.size_le (Nat.zero_le limit)
  unfold limit at hsize
  omega

/-- What a table has to do with its history. The table is as large as its largest population, since
live slots and those of the chain are all there are. -/
structure Chronicle (t : HandleTable) (es : List Event) : Prop where
  valid : ∀ h, t.isValid h = true ↔ Standing es h
  live : {h | t.isValid h = true}.encard = t.live
  population : t.live + (freed es).length = (issued es).length
  chain : ∃ is, FreeChain t.links t.freeHead is ∧ t.live + is.length = t.records.size
  peak : t.records.size = peak es
  numbered : ∀ i : Nat, Numbered i (issuedFor es i) (timesFreed es i) t.records[i]?
  indexed : ∀ h ∈ issued es, 0 ≤ h.index
  ordered : Ordered es

lemma chronicle_new : Chronicle {} [] where
  valid h := iff_of_false (by simp [isValid, location, Except.isOk, Except.toBool]) not_standing_nil
  live := by simp [isValid, location, Except.isOk, Except.toBool]
  population := rfl
  chain := ⟨[], .nil fun i => by simp [links], rfl⟩
  peak := rfl
  numbered i := by simp [Numbered, issuedFor, issued, timesFreed, freed]
  indexed h hh := by simp [issued] at hh
  ordered before h behind he := by simp at he

lemma isValid_iff : t.isValid h = true ↔ ∃ l, t.location h = .ok l := by
  unfold isValid
  cases t.location h <;> simp [Except.isOk, Except.toBool]

lemma isValid_allocate (ha : t.allocate = .ok (h, t')) : t.isValid h = false ∧
    ∀ g, t'.isValid g = true ↔ g = h ∨ t.isValid g = true := by
  obtain ⟨hnew, hloc, -⟩ := location_allocate ha
  constructor
  · simp [isValid, hnew, Except.isOk, Except.toBool]
  · intro g
    rw [isValid_iff, isValid_iff, hloc]
    by_cases hg : g = h
    · simp [hg]
    · rw [Function.update_of_ne hg]
      simp [hg]

section Allocate
variable (hc : Chronicle t es) (ha : t.allocate = .ok (h, t'))
include hc ha

lemma Chronicle.valid_allocate : ∀ g, t'.isValid g = true ↔ Standing (es ++ [.issued h]) g := by
  intro g
  rw [(isValid_allocate ha).2, standing_concat, hc.valid]
  simp [eq_comm]

lemma Chronicle.live_allocate : {g | t'.isValid g = true}.encard = t'.live := by
  obtain ⟨hnew, hvalid⟩ := isValid_allocate ha
  have hset : {g | t'.isValid g = true} = insert h {g | t.isValid g = true} := Set.ext hvalid
  rw [hset, Set.encard_insert_of_notMem (by simp [hnew]), hc.live, (location_allocate ha).2.2]
  rfl

lemma Chronicle.chain_allocate :
    ∃ is, FreeChain t'.links t'.freeHead is ∧ t'.live + is.length = t'.records.size := by
  obtain ⟨is, hchain, hsize⟩ := hc.chain
  rcases allocate_eq_ok ha with ⟨i, v, next, hf, hr, rfl, rfl⟩ | ⟨hf, rfl, rfl⟩
  · have hi := (Array.getElem?_eq_some_iff.mp hr).1
    rw [hf] at hchain
    obtain ⟨js, rfl, hrest⟩ := hchain.take (by rw [links, hr]; rfl)
    rw [List.length_cons] at hsize
    refine ⟨js, ?_, by rw [Array.size_setIfInBounds, Nat.add_assoc, Nat.add_comm 1, hsize]⟩
    have hlinks : links ⟨t.records.setIfInBounds i ⟨v, .live none⟩, next, t.live + 1⟩ =
        Function.update t.links i none := getElem?_update hi
    rwa [hlinks]
  · have hlinks : links ⟨t.records.push ⟨1, .live none⟩, none, t.live + 1⟩ =
        Function.update t.links t.records.size none := getElem?_push
    refine ⟨is, ?_, by rw [Array.size_push, Nat.add_right_comm, hsize]⟩
    rw [hlinks, ← hf]
    exact hchain.update (by simp [links])

lemma Chronicle.population_allocate : t'.live + (HandleTable.freed (es ++ [.issued h])).length =
    (HandleTable.issued (es ++ [.issued h])).length := by
  rw [(location_allocate ha).2.2, freed_append, issued_append, freed_issued, issued_issued,
    List.append_nil, List.length_append, List.length_singleton, ← hc.population,
    Nat.add_right_comm]

/-- A slot is only added when there are as many live ones as slots. -/
lemma Chronicle.peak_allocate : t'.records.size = HandleTable.peak (es ++ [.issued h]) := by
  obtain ⟨is, hchain, hsize⟩ := hc.chain
  have hnow : HandleTable.population (es ++ [.issued h]) = t.live + 1 := by
    rw [HandleTable.population, ← hc.population_allocate ha, Nat.add_sub_cancel,
      (location_allocate ha).2.2]
  rw [peak_concat, ← hc.peak, hnow]
  rcases allocate_eq_ok ha with ⟨i, v, next, hf, hr, rfl, rfl⟩ | ⟨hf, rfl, rfl⟩
  · rw [hf] at hchain
    obtain ⟨js, rfl, -⟩ := hchain.take (by rw [links, hr]; rfl)
    rw [List.length_cons] at hsize
    rw [Array.size_setIfInBounds, max_eq_left (by omega)]
  · rw [hf] at hchain
    cases hchain.linked
    rw [List.length_nil, Nat.add_zero] at hsize
    rw [Array.size_push, hsize, max_eq_right (Nat.le_succ _)]

lemma Chronicle.numbered_allocate (i : Nat) :
    Numbered i (issuedFor (es ++ [.issued h]) i) (timesFreed (es ++ [.issued h]) i)
      t'.records[i]? := by
  have hi := hc.numbered i
  have hfrees : timesFreed (es ++ [.issued h]) i = timesFreed es i := by
    rw [timesFreed, freed_append, freed_issued, List.append_nil, timesFreed]
  have hhandles : issuedFor (es ++ [.issued h]) i =
      issuedFor es i ++ if h.index = i then [h] else [] := by
    rw [issuedFor, issued_append, List.filter_append, issued_issued, issuedFor]
    simp only [List.filter_cons, List.filter_nil, decide_eq_true_eq]
  rw [hfrees, hhandles]
  rcases allocate_eq_ok ha with ⟨j, v, next, hf, hr, rfl, rfl⟩ | ⟨hf, rfl, rfl⟩
  · have hj := (Array.getElem?_eq_some_iff.mp hr).1
    simp only [Array.getElem?_setIfInBounds, Nat.cast_inj]
    by_cases hji : j = i
    · subst hji
      rw [hr] at hi
      obtain ⟨hv, hs⟩ := hi
      simp only [hj, if_true]
      refine ⟨hv, ?_⟩
      rw [serials_succ, hs, serial, hv]
    · simpa [hji] using hi
  · simp only [Array.getElem?_push, Nat.cast_inj]
    by_cases hsize : i = t.records.size
    · subst hsize
      rw [Array.getElem?_eq_none le_rfl] at hi
      obtain ⟨hs, hzero⟩ := hi
      simp only [if_true, hs, hzero]
      exact ⟨rfl, rfl⟩
    · simpa [hsize, Ne.symm hsize] using hi

theorem Chronicle.allocate : Chronicle t' (es ++ [.issued h]) where
  valid := hc.valid_allocate ha
  live := hc.live_allocate ha
  population := hc.population_allocate ha
  chain := hc.chain_allocate ha
  peak := hc.peak_allocate ha
  numbered := hc.numbered_allocate ha
  indexed g hg := by
    rw [issued_append, List.mem_append] at hg
    rcases hg with hg | hg
    · exact hc.indexed g hg
    · obtain rfl : g = h := by simpa [issued] using hg
      rcases allocate_eq_ok ha with ⟨i, v, next, -, -, rfl, -⟩ | ⟨-, rfl, -⟩ <;>
        exact Int.natCast_nonneg _
  ordered := hc.ordered.concat (by simp)

end Allocate

lemma isValid_free (hf : t.free h = .ok t') : t.isValid h = true ∧
    ∀ g, t'.isValid g = true ↔ g ≠ h ∧ t.isValid g = true := by
  obtain ⟨hloc, -⟩ := location_free hf
  refine ⟨isValid_iff.mpr (free_ok_iff.mp ⟨t', hf⟩), fun g => ?_⟩
  rw [isValid_iff, isValid_iff, hloc]
  by_cases hg : g = h
  · simp [hg]
  · rw [Function.update_of_ne hg]
    simp [hg]

section Free
variable (hc : Chronicle t es) (hf : t.free h = .ok t')
include hc hf

lemma Chronicle.valid_free : ∀ g, t'.isValid g = true ↔ Standing (es ++ [.freed h]) g := by
  intro g
  rw [(isValid_free hf).2, standing_concat, hc.valid]
  simp [eq_comm]

lemma Chronicle.live_free : {g | t'.isValid g = true}.encard = t'.live ∧ 0 < t.live := by
  obtain ⟨hold, hvalid⟩ := isValid_free hf
  have hset : {g | t'.isValid g = true} = {g | t.isValid g = true} \ {h} := by
    ext g
    simp [hvalid, and_comm]
  have hone := Set.encard_sdiff_singleton_add_one (s := {g | t.isValid g = true}) hold
  rw [← hset, hc.live] at hone
  have hpos : 0 < t.live := by
    refine Nat.pos_of_ne_zero fun hzero => ?_
    rw [hzero] at hone
    simp at hone
  refine ⟨?_, hpos⟩
  have hsucc : (t.live : ℕ∞) = t'.live + 1 := by
    rw [(location_free hf).2]
    exact_mod_cast (Nat.sub_add_cancel hpos).symm
  rw [hsucc] at hone
  exact WithTop.add_right_cancel ENat.one_ne_top hone

lemma Chronicle.chain_free :
    ∃ is, FreeChain t'.links t'.freeHead is ∧ t'.live + is.length = t'.records.size := by
  obtain ⟨is, hchain, hsize⟩ := hc.chain
  have hpos := (hc.live_free hf).2
  obtain ⟨i, l, -, hr, rfl⟩ := free_eq_ok hf
  have hi := (Array.getElem?_eq_some_iff.mp hr).1
  have hlinks : links ⟨t.records.setIfInBounds i ⟨h.version + 1, .free t.freeHead⟩, some i,
      t.live - 1⟩ = Function.update t.links i (some t.freeHead) := getElem?_update hi
  refine ⟨i :: is, ?_, by simp; omega⟩
  rw [hlinks]
  exact hchain.give (by rw [links, hr]; rfl)

lemma Chronicle.population_free : t'.live + (HandleTable.freed (es ++ [.freed h])).length =
    (HandleTable.issued (es ++ [.freed h])).length := by
  have hpos := (hc.live_free hf).2
  rw [(location_free hf).2, freed_append, issued_append, freed_freed, issued_freed,
    List.append_nil, List.length_append, List.length_singleton, ← hc.population]
  omega

lemma Chronicle.numbered_free (i : Nat) :
    Numbered i (issuedFor (es ++ [.freed h]) i) (timesFreed (es ++ [.freed h]) i)
      t'.records[i]? := by
  have hi := hc.numbered i
  have hhandles : issuedFor (es ++ [.freed h]) i = issuedFor es i := by
    rw [issuedFor, issued_append, issued_freed, List.append_nil, issuedFor]
  have hfrees : timesFreed (es ++ [.freed h]) i =
      timesFreed es i + if h.index = i then 1 else 0 := by
    rw [timesFreed, freed_append, freed_freed, List.countP_append, List.countP_singleton,
      timesFreed]
    simp only [decide_eq_true_eq]
  rw [hhandles, hfrees]
  obtain ⟨j, l, hindex, hr, rfl⟩ := free_eq_ok hf
  have hj := (Array.getElem?_eq_some_iff.mp hr).1
  simp only [Array.getElem?_setIfInBounds, hindex, Nat.cast_inj]
  by_cases hji : j = i
  · subst hji
    rw [hr] at hi
    obtain ⟨hv, hs⟩ := hi
    simp only [hj, if_true]
    refine ⟨?_, hs⟩
    rw [hv, UInt32.ofNat_add (_ + 1)]
    rfl
  · simpa [hji] using hi

theorem Chronicle.free : Chronicle t' (es ++ [.freed h]) where
  valid := hc.valid_free hf
  live := (hc.live_free hf).1
  population := hc.population_free hf
  chain := hc.chain_free hf
  peak := by
    have hsize : t'.records.size = t.records.size := by
      obtain ⟨i, l, -, -, rfl⟩ := free_eq_ok hf
      exact Array.size_setIfInBounds
    obtain ⟨is, -, htotal⟩ := hc.chain
    have hnow : HandleTable.population (es ++ [.freed h]) ≤ t.records.size := by
      rw [HandleTable.population, ← hc.population_free hf, Nat.add_sub_cancel,
        (location_free hf).2]
      omega
    rw [peak_concat, hsize, ← hc.peak, max_eq_left hnow]
  numbered := hc.numbered_free hf
  indexed g hg := hc.indexed g (by simpa [issued] using hg)
  ordered := by
    refine hc.ordered.concat fun g hg => ?_
    obtain rfl := Event.freed.inj hg
    exact ((hc.valid h).mp (isValid_free hf).1).mem_issued

end Free

theorem Chronicle.setLocation (hc : Chronicle t es) (hs : t.setLocation h l = .ok t') :
    Chronicle t' es := by
  obtain ⟨hloc, hlive⟩ := location_setLocation hs
  have hvalid : ∀ g, t'.isValid g = true ↔ t.isValid g = true := by
    intro g
    rw [isValid_iff, isValid_iff, hloc]
    by_cases hg : g = h
    · obtain ⟨m, hm⟩ := setLocation_ok_iff.mp ⟨t', hs⟩
      simp [hg, hm]
    · rw [Function.update_of_ne hg]
  obtain ⟨i, m, hr, rfl⟩ := setLocation_eq_ok hs
  have hi := (Array.getElem?_eq_some_iff.mp hr).1
  refine ⟨fun g => (hvalid g).trans (hc.valid g), ?_, hc.population, ?_, ?_, fun j => ?_,
    hc.indexed, hc.ordered⟩
  · simp only [hvalid]
    exact hc.live
  · obtain ⟨is, hchain, hsize⟩ := hc.chain
    have hlinks : links ⟨t.records.setIfInBounds i ⟨h.version, .live l⟩, t.freeHead, t.live⟩ =
        Function.update t.links i none := getElem?_update hi
    refine ⟨is, ?_, by simpa using hsize⟩
    rw [hlinks]
    exact hchain.update (by rw [links, hr]; rfl)
  · rw [← hc.peak]
    exact Array.size_setIfInBounds
  · have hj := hc.numbered j
    simp only [Array.getElem?_setIfInBounds]
    by_cases hij : i = j
    · subst hij
      rw [hr] at hj
      simp only [hi, if_true]
      exact hj
    · simpa [hij] using hj

/-- The calls that a table went through are its history. -/
theorem Runs.chronicle (hr : Runs {} es t) : Chronicle t es := by
  induction hr with
  | refl => exact chronicle_new
  | allocated _ ha ih => exact ih.allocate ha
  | freed _ hf ih => exact ih.free hf
  | located _ hl ih => exact ih.setLocation hl

section Reading
variable (hc : Chronicle t es) (hfew : ∀ i, timesFreed es i < 2 ^ 32)
include hc hfew

/-- No handle is issued twice, if no slot is freed too often. -/
theorem Chronicle.nodup_issued : (issued es).Nodup := by
  rw [List.nodup_iff_count_le_one]
  intro h
  by_cases hh : h ∈ issued es
  · -- a handle can only stand twice among those of its own slot
    obtain ⟨i, hi⟩ := Int.eq_ofNat_of_zero_le (hc.indexed h hh)
    have hcount : (issued es).count h = (issuedFor es i).count h := by
      rw [issuedFor, List.count_filter (by simpa using hi)]
    have hnodup : (issuedFor es i).Nodup := by
      have hfrees := hfew i
      have hnumbered := hc.numbered i
      cases hr : t.records[i]? with
      | none =>
        rw [hr] at hnumbered
        rw [hnumbered.1]
        exact List.nodup_nil
      | some r =>
        obtain ⟨v, s⟩ := r
        rw [hr] at hnumbered
        cases s <;> rw [hnumbered.2] <;> exact nodup_serials (by omega)
    rw [hcount]
    exact List.nodup_iff_count_le_one.mp hnodup h
  · rw [List.count_eq_zero_of_not_mem hh]
    exact Nat.zero_le 1

/-- A handle that was freed is not valid any more, whatever became of its slot. -/
theorem Chronicle.isValid_of_freed (hh : .freed h ∈ es) : t.isValid h = false := by
  by_contra hvalid
  obtain ⟨before, behind, rfl, hnot⟩ := (hc.valid h).mp (by simpa using hvalid)
  have hbefore : .freed h ∈ before := by
    simpa [hnot] using hh
  obtain ⟨first, rest, rfl⟩ := List.append_of_mem hbefore
  have htwice := hc.ordered first h (rest ++ .issued h :: behind) (by simp)
  have hnodup := hc.nodup_issued hfew
  simp only [issued_append, List.append_assoc, List.nodup_append] at hnodup
  exact hnodup.2.2 h htwice h (by simp [issued]) rfl

end Reading

end EntityStore.HandleTable
