import Mathlib
import EntityStore.Proofs.HandleHistory
import EntityStore.Proofs.Uniqueness

/-!
# What the tables of the store touch

Beside each function that touches numbered things stands a list of its accesses: the items and
ranges that it reaches for, the counters that it lowers, and the places where values are made. They
are safe if every number is one that is there. For the tables of handles and archetypes, for the
directory and for the pool that follows from what these keep in order.
-/
namespace EntityStore

/-- The alignment is a power of two, and the values of an array are aligned if the first one is. -/
def Kind.Lawful (k : Kind) : Prop := 2 ^ k.align.log2 = k.align ∧ k.align ∣ k.size

instance (k : Kind) : Decidable k.Lawful := inferInstanceAs (Decidable (_ ∧ _))

inductive Access
  /-- One of so many items, by its number. -/
  | item (number count : Nat)
  /-- The items from one number up to another, of so many. -/
  | range (start stop count : Nat)
  /-- A counter goes down. -/
  | lower (counter step : Nat)
  /-- A number is divided. -/
  | divide (divisor : Nat)
  /-- So many values stand between two addresses, which are counted from the beginning of a
  chunk. -/
  | values (kind : Kind) (count start stop : Nat)
  deriving DecidableEq, Repr

namespace Access

def Within : Access → Prop
  | item i n => i < n
  | range i j n => i ≤ j ∧ j ≤ n
  | lower n k => k ≤ n
  | divide n => n ≠ 0
  | values k n start stop => start + k.size * n = stop ∧ (k.Lawful → k.align ∣ start)

instance : DecidablePred Within
  | item _ _ => inferInstanceAs (Decidable (_ < _))
  | range _ _ _ => inferInstanceAs (Decidable (_ ∧ _))
  | lower _ _ => inferInstanceAs (Decidable (_ ≤ _))
  | divide _ => inferInstanceAs (Decidable (_ ≠ _))
  | values _ _ _ _ => inferInstanceAs (Decidable (_ ∧ (_ → _)))

/-- Nothing is reached for that is not there, and no counter goes below zero. -/
def Safe (xs : List Access) : Prop := ∀ x ∈ xs, x.Within

instance (xs : List Access) : Decidable (Safe xs) := inferInstanceAs (Decidable (∀ x ∈ xs, _))

variable {x : Access} {xs ys : List Access} {i j n : Nat}

@[simp] lemma safe_nil : Safe [] := by simp [Safe]

@[simp] lemma safe_cons : Safe (x :: xs) ↔ x.Within ∧ Safe xs := List.forall_mem_cons

@[simp] lemma safe_append : Safe (xs ++ ys) ↔ Safe xs ∧ Safe ys := List.forall_mem_append

lemma safe_flatMap {α : Type} {as : List α} {f : α → List Access} :
    Safe (as.flatMap f) ↔ ∀ a ∈ as, Safe (f a) := List.forall_mem_flatMap

@[simp] lemma within_item : (item i n).Within ↔ i < n := Iff.rfl

@[simp] lemma within_range : (range i j n).Within ↔ i ≤ j ∧ j ≤ n := Iff.rfl

@[simp] lemma within_lower : (lower n i).Within ↔ i ≤ n := Iff.rfl

@[simp] lemma within_values {k : Kind} : (values k n i j).Within ↔
    i + k.size * n = j ∧ (k.Lawful → k.align ∣ i) := Iff.rfl

@[simp] lemma within_divide : (divide n).Within ↔ n ≠ 0 := Iff.rfl

/-- Two items at a time: the list is split at the later one. -/
def pair (i j count : Nat) : List Access :=
  [range 0 (max i j) count, item (min i j) (max i j), item 0 (count - max i j)]

lemma safe_pair (hi : i < n) (hj : j < n) (hij : i ≠ j) : Safe (pair i j n) := by
  simp only [pair, safe_cons, within_range, within_item, safe_nil, and_true]
  omega

end Access

open Access

namespace HandleTable
variable {t : HandleTable} {h : Handle} {es : List Event}

/-- The record of a handle, which is reached for once the handle has been found valid. -/
def recordAccesses (t : HandleTable) (h : Handle) : List Access :=
  if t.isValid h then [item h.index.toNat t.records.size] else []

def allocateAccesses (t : HandleTable) : List Access :=
  match t.freeHead with
  | some i => [item i t.records.size]
  | none =>
      if limit ≤ t.records.size then []
      else [lower (t.records.size + 1) 1, item t.records.size (t.records.size + 1)]

def freeAccesses (t : HandleTable) (h : Handle) : List Access :=
  if t.isValid h then [item h.index.toNat t.records.size, lower t.live 1] else []

lemma index_lt (hv : t.isValid h = true) : h.index.toNat < t.records.size := by
  obtain ⟨l, hl⟩ := isValid_iff.mp hv
  exact (Array.getElem?_eq_some_iff.mp (location_eq_ok.mp hl).2).1

lemma safe_recordAccesses (t : HandleTable) (h : Handle) : Safe (t.recordAccesses h) := by
  unfold recordAccesses
  split_ifs with hv
  · simpa using index_lt hv
  · exact safe_nil

/-- The chain of free records begins with a free record. -/
lemma Chronicle.freeHead (hc : Chronicle t es) {i : Nat} (hi : t.freeHead = some i) :
    ∃ v next, t.records[i]? = some ⟨v, .free next⟩ := by
  obtain ⟨is, hchain, -⟩ := hc.chain
  have hlinked := hchain.linked
  rw [hi] at hlinked
  cases hlinked with
  | cons hlink _ =>
    obtain ⟨v, hv⟩ := links_eq_some.mp hlink
    exact ⟨v, _, hv⟩

lemma Chronicle.safe_allocate (hc : Chronicle t es) : Safe t.allocateAccesses := by
  unfold allocateAccesses
  split
  next i hi =>
    obtain ⟨v, next, hr⟩ := hc.freeHead hi
    simpa using (Array.getElem?_eq_some_iff.mp hr).1
  next => split_ifs <;> simp

lemma Chronicle.safe_free (hc : Chronicle t es) (h : Handle) : Safe (t.freeAccesses h) := by
  unfold freeAccesses
  split_ifs with hv
  · obtain ⟨t', hf⟩ := free_ok_iff.mpr (isValid_iff.mp hv)
    have hlive := (hc.live_free hf).2
    simp only [safe_cons, within_item, within_lower, safe_nil, and_true]
    exact ⟨index_lt hv, hlive⟩
  · exact safe_nil

/-- Records that are not in the list stay as they are. -/
theorem allocate_untouched {t' : HandleTable} (ha : t.allocate = .ok (h, t')) {i : Nat}
    (hi : i < t.records.size) (hfree : ∀ n, item i n ∉ t.allocateAccesses) :
    t'.records[i]? = t.records[i]? := by
  unfold allocate at ha
  unfold allocateAccesses at hfree
  cases hf : t.freeHead with
  | some k =>
    rw [hf] at ha hfree
    have hne : k ≠ i := by
      rintro rfl
      exact hfree _ (List.mem_singleton.mpr rfl)
    dsimp only at ha
    split at ha
    · obtain ⟨-, rfl⟩ := Prod.mk.inj (Except.ok.inj ha)
      exact Array.getElem?_setIfInBounds_ne hne
    · cases ha
  | none =>
    rw [hf] at ha
    dsimp only at ha
    split_ifs at ha
    obtain ⟨-, rfl⟩ := Prod.mk.inj (Except.ok.inj ha)
    rw [Array.getElem?_push, if_neg hi.ne]

lemma valid_of_map {α : Type} {g : Option Location → α} {x : α}
    (hx : (t.location h).map g = .ok x) : t.isValid h = true ∧ ∃ l, g l = x := by
  obtain ⟨l, hl, hgl⟩ := ok_of_map hx
  exact ⟨isValid_iff.mpr ⟨l, hl⟩, l, hgl⟩

theorem free_untouched {t' : HandleTable} (hf : t.free h = .ok t') {i : Nat}
    (hi : ∀ n, item i n ∉ t.freeAccesses h) : t'.records[i]? = t.records[i]? := by
  obtain ⟨hv, -, rfl⟩ := valid_of_map hf
  have hne : h.index.toNat ≠ i := by
    rintro rfl
    exact hi t.records.size (by simp [freeAccesses, hv])
  exact Array.getElem?_setIfInBounds_ne hne

theorem setLocation_untouched {t' : HandleTable} {m : Option Location}
    (hs : t.setLocation h m = .ok t') {i : Nat} (hi : ∀ n, item i n ∉ t.recordAccesses h) :
    t'.records[i]? = t.records[i]? := by
  obtain ⟨hv, -, rfl⟩ := valid_of_map hs
  have hne : h.index.toNat ≠ i := by
    rintro rfl
    exact hi t.records.size (by simp [recordAccesses, hv])
  exact Array.getElem?_setIfInBounds_ne hne

end HandleTable

namespace Pool
variable {p : Pool} {n : Nat}

def giveAccesses (p : Pool) : List Access :=
  if p.retained < p.retain then [] else [lower p.allocated 1]

def giveManyAccesses (p : Pool) : Nat → List Access
  | 0 => []
  | n + 1 => p.giveAccesses ++ p.give.giveManyAccesses n

def flushAccesses (p : Pool) : List Access := [lower p.allocated p.retained]

lemma Lends.safe_give (h : p.Lends (n + 1)) : Safe p.giveAccesses := by
  have hallocated := h.allocated
  unfold giveAccesses
  split_ifs <;> simp
  omega

lemma Lends.safe_giveMany (h : p.Lends n) : Safe (p.giveManyAccesses n) := by
  induction n generalizing p with
  | zero => exact safe_nil
  | succ n ih => exact safe_append.mpr ⟨h.safe_give, ih h.give⟩

lemma Lends.safe_flush (h : p.Lends n) : Safe p.flushAccesses := by
  have hallocated := h.allocated
  simp only [flushAccesses, safe_cons, within_lower, safe_nil, and_true]
  omega

end Pool

namespace Directory
variable {hash : List TypeCode → Nat} {d : Directory} {slots : Array Slot} {key : List TypeCode}

def probeAccesses (slots : Array Slot) (key : List TypeCode) : Nat → Nat → List Access
  | 0, _ => []
  | steps + 1, i =>
      item i slots.size ::
        match slots[i]? with
        | some (.occupied k _) =>
            if k = key then [] else probeAccesses slots key steps (following slots i)
        | some .tombstone => probeAccesses slots key steps (following slots i)
        | _ => []

def findAccesses (hash : List TypeCode → Nat) (d : Directory) (key : List TypeCode) :
    List Access :=
  lower d.slots.size 1 :: probeAccesses d.slots key d.slots.size (hash key % d.slots.size)

def getAccesses (hash : List TypeCode → Nat) (d : Directory) (key : List TypeCode) : List Access :=
  d.findAccesses hash key ++ ((d.find hash key).map fun p => item p.1 d.slots.size).toList

def probeFreeAccesses (slots : Array Slot) : Nat → Nat → List Access
  | 0, _ => []
  | steps + 1, i =>
      item i slots.size ::
        match slots[i]? with
        | some (.occupied _ _) => probeFreeAccesses slots steps (following slots i)
        | _ => []

/-- If no slot were free the search for one would not end: it would leave the table. -/
def placeAccesses (hash : List TypeCode → Nat) (d : Directory) (key : List TypeCode) :
    List Access :=
  lower d.slots.size 1 :: probeFreeAccesses d.slots d.slots.size (hash key % d.slots.size) ++
    match probeFree d.slots d.slots.size (hash key % d.slots.size) with
    | none => [item d.slots.size d.slots.size]
    | some i =>
        item i d.slots.size ::
          if d.slots[i]? = some .tombstone then [lower d.tombstones 1] else []

def placeAllAccesses (hash : List TypeCode → Nat) :
    List (List TypeCode × Nat) → Directory → List Access
  | [], _ => []
  | e :: es, d => d.placeAccesses hash e.1 ++ placeAllAccesses hash es (d.place hash e.1 e.2)

def resizeAccesses (hash : List TypeCode → Nat) (d : Directory) (size : Nat) : List Access :=
  placeAllAccesses hash d.entries
    { slots := vacantSlots (max size d.minSize), minSize := d.minSize }

def insertAccesses (hash : List TypeCode → Nat) (d : Directory) (key : List TypeCode) :
    List Access :=
  d.findAccesses hash key ++
    match d.find hash key with
    | some _ => []
    | none =>
        [lower d.slots.size d.occupied, lower (d.slots.size - d.occupied) d.tombstones] ++
          (if (d.slots.size - d.occupied - d.tombstones - 1) * 3 < d.slots.size then
            d.resizeAccesses hash (d.slots.size * 2) else []) ++
          (d.grown hash).placeAccesses hash key

def buried (d : Directory) (i : Nat) : Directory :=
  { d with
    slots := d.slots.setIfInBounds i .tombstone
    occupied := d.occupied - 1
    tombstones := d.tombstones + 1 }

def eraseAccesses (hash : List TypeCode → Nat) (d : Directory) (key : List TypeCode) :
    List Access :=
  d.findAccesses hash key ++
    match d.find hash key with
    | none => []
    | some (i, _) =>
        [item i d.slots.size, lower d.occupied 1] ++
          if (d.buried i).occupied * 3 < (d.buried i).slots.size ∧
              d.minSize < (d.buried i).slots.size then
            (d.buried i).resizeAccesses hash ((d.buried i).slots.size / 2)
          else []

lemma safe_probe {steps i : Nat} (hi : i < slots.size) :
    Safe (probeAccesses slots key steps i) := by
  induction steps generalizing i with
  | zero => exact safe_nil
  | succ n ih =>
    have hnext := ih (following_lt hi)
    rw [probeAccesses]
    refine safe_cons.mpr ⟨hi, ?_⟩
    split
    · split_ifs
      · exact safe_nil
      · exact hnext
    · exact hnext
    · exact safe_nil

lemma safe_probeFree {steps i : Nat} (hi : i < slots.size) :
    Safe (probeFreeAccesses slots steps i) := by
  induction steps generalizing i with
  | zero => exact safe_nil
  | succ n ih =>
    rw [probeFreeAccesses]
    refine safe_cons.mpr ⟨hi, ?_⟩
    split
    · exact ih (following_lt hi)
    · exact safe_nil

/-- A probe goes by the slots in its list: it ends the same way in any table of the same size that
has the same slots there. -/
theorem probe_congr {slots' : Array Slot} (hsize : slots'.size = slots.size) {steps i : Nat}
    (h : ∀ j n, item j n ∈ probeAccesses slots key steps i → slots'[j]? = slots[j]?) :
    probe slots' key steps i = probe slots key steps i := by
  have hfollowing : ∀ i, following slots' i = following slots i := fun i => by
    rw [following, following, hsize]
  induction steps generalizing i with
  | zero => rfl
  | succ steps ih =>
    rw [probeAccesses] at h
    rw [probe, probe, h i slots.size List.mem_cons_self, hfollowing]
    split
    next k id hs =>
      split_ifs with hk
      · rfl
      · exact ih fun j n hj => h j n (by simp [hs, hk, hj])
    next hs => exact ih fun j n hj => h j n (by simp [hs, hj])
    next => rfl

theorem probeFree_congr {slots' : Array Slot} (hsize : slots'.size = slots.size) {steps i : Nat}
    (h : ∀ j n, item j n ∈ probeFreeAccesses slots steps i → slots'[j]? = slots[j]?) :
    probeFree slots' steps i = probeFree slots steps i := by
  have hfollowing : ∀ i, following slots' i = following slots i := fun i => by
    rw [following, following, hsize]
  induction steps generalizing i with
  | zero => rfl
  | succ steps ih =>
    rw [probeFreeAccesses] at h
    rw [probeFree, probeFree, h i slots.size List.mem_cons_self, hfollowing]
    split
    next k id hs => exact ih fun j n hj => h j n (by simp [hs, hj])
    next => rfl
    next => rfl

theorem find_congr {e : Directory} (hsize : e.slots.size = d.slots.size)
    (h : ∀ j n, item j n ∈ d.findAccesses hash key → e.slots[j]? = d.slots[j]?) :
    e.find hash key = d.find hash key := by
  rw [find, find, hsize]
  exact probe_congr hsize fun j n hj => h j n (List.mem_cons_of_mem _ hj)

theorem place_untouched {id i : Nat} (h : ∀ n, item i n ∉ d.placeAccesses hash key) :
    (d.place hash key id).slots[i]? = d.slots[i]? := by
  rw [place]
  cases hp : probeFree d.slots d.slots.size (hash key % d.slots.size) with
  | none => rfl
  | some k =>
    have hne : k ≠ i := by
      rintro rfl
      exact h d.slots.size (by simp [placeAccesses, hp])
    exact Array.getElem?_setIfInBounds_ne hne

section Valid
variable (h : d.Valid hash)
include h

lemma Valid.safe_find (key : List TypeCode) : Safe (d.findAccesses hash key) :=
  safe_cons.mpr ⟨h.size_pos, safe_probe (h.home_lt key)⟩

lemma Valid.safe_get (key : List TypeCode) : Safe (d.getAccesses hash key) := by
  refine safe_append.mpr ⟨h.safe_find key, ?_⟩
  cases hf : d.find hash key with
  | none => exact safe_nil
  | some p =>
    have hslot := (find_eq_some h).mp hf
    simpa using (Array.getElem?_eq_some_iff.mp hslot).1

lemma Valid.tombstones_pos {i : Nat} (hi : d.slots[i]? = some .tombstone) : 0 < d.tombstones := by
  rw [h.tombstones, List.countP_pos_iff]
  exact ⟨_, Array.mem_toList_iff.mpr (Array.mem_of_getElem? hi), by simp⟩

lemma Valid.occupied_pos {i id : Nat} (hi : d.slots[i]? = some (.occupied key id)) :
    0 < d.occupied := by
  rw [h.occupied, List.countP_pos_iff]
  exact ⟨_, Array.mem_toList_iff.mpr (Array.mem_of_getElem? hi), rfl⟩

lemma Valid.counters_le : d.occupied + d.tombstones ≤ d.slots.size := by
  have hsplit := List.length_eq_countP_add_countP (l := d.slots.toList) fun s => s.entry.isSome
  have hdisjoint : d.slots.toList.countP (fun s => s = .tombstone) ≤
      d.slots.toList.countP fun s => decide ¬ s.entry.isSome = true := by
    refine List.countP_mono_left fun s _ hs => ?_
    obtain rfl : s = .tombstone := by simpa using hs
    rfl
  rw [h.occupied, h.tombstones, ← Array.length_toList, hsplit]
  exact Nat.add_le_add_left hdisjoint _

lemma Valid.safe_place (hroom : d.occupied < d.slots.size) (key : List TypeCode) :
    Safe (d.placeAccesses hash key) := by
  obtain ⟨i, hi⟩ := probeFree_of_room h hroom key
  obtain ⟨-, -, -, ⟨s, hs, -⟩, -⟩ := way_of_probeFree (h.home_lt key) hi
  rw [placeAccesses, hi, safe_append]
  refine ⟨safe_cons.mpr ⟨h.size_pos, safe_probeFree (h.home_lt key)⟩, ?_⟩
  refine safe_cons.mpr ⟨(Array.getElem?_eq_some_iff.mp hs).1, ?_⟩
  split_ifs with ht
  · exact safe_cons.mpr ⟨h.tombstones_pos ht, safe_nil⟩
  · exact safe_nil

lemma Valid.safe_placeAll {es : List (List TypeCode × Nat)} (hnodup : (es.map Prod.fst).Nodup)
    (hnew : ∀ e ∈ es, ∀ n, ¬ d.Holds e.1 n) (hroom : d.occupied + es.length ≤ d.slots.size) :
    Safe (placeAllAccesses hash es d) := by
  induction es generalizing d with
  | nil => exact safe_nil
  | cons e es ih =>
    simp only [List.map_cons, List.nodup_cons] at hnodup
    simp only [List.length_cons] at hroom
    obtain ⟨hv, hsize, -, hocc, hholds⟩ := place_spec h e.2 (hnew e (by simp)) (by omega)
    refine safe_append.mpr ⟨h.safe_place (by omega) e.1, ih hv hnodup.2 ?_ (by omega)⟩
    intro e' he' n hn
    rcases (hholds e'.1 n).mp hn with ⟨hk, -⟩ | hn
    · exact hnodup.1 (List.mem_map.mpr ⟨e', he', hk⟩)
    · exact hnew e' (by simp [he']) n hn

lemma Valid.safe_resize {size : Nat} (hroom : d.occupied ≤ size) :
    Safe (d.resizeAccesses hash size) := by
  have hv : Valid hash { slots := vacantSlots (max size d.minSize), minSize := d.minSize } :=
    valid_vacant h.least (le_max_right _ _)
  have hlen := length_entries h
  exact hv.safe_placeAll (nodup_entries h) (fun e _ n => not_holds_vacant)
    (by simp [vacantSlots]; omega)

lemma Valid.safe_insert (key : List TypeCode) : Safe (d.insertAccesses hash key) := by
  have hcounters := h.counters_le
  have hocc := occupied_le_size h
  obtain ⟨hgrown, hroom, -⟩ := grown_spec h
  refine safe_append.mpr ⟨h.safe_find key, ?_⟩
  split
  · exact safe_nil
  · refine safe_append.mpr ⟨safe_append.mpr ⟨?_, ?_⟩, hgrown.safe_place hroom key⟩
    · simp only [safe_cons, within_lower, safe_nil, and_true]
      omega
    · split_ifs
      · exact h.safe_resize (by omega)
      · exact safe_nil

lemma Valid.safe_erase (key : List TypeCode) : Safe (d.eraseAccesses hash key) := by
  refine safe_append.mpr ⟨h.safe_find key, ?_⟩
  cases hf : d.find hash key with
  | none => exact safe_nil
  | some p =>
    have hslot := (find_eq_some h).mp hf
    have hburied : (d.buried p.1).Valid hash := (bury_spec h hslot).1
    refine safe_append.mpr ⟨?_, ?_⟩
    · simp only [safe_cons, within_item, within_lower, safe_nil, and_true]
      exact ⟨(Array.getElem?_eq_some_iff.mp hslot).1, h.occupied_pos hslot⟩
    · split_ifs with hspare
      · exact hburied.safe_resize (by omega)
      · exact safe_nil

end Valid

end Directory

namespace Catalogue
variable {c : Catalogue} {a : Archetype} {id : Nat}

def addAccesses (c : Catalogue) (a : Archetype) : List Access :=
  c.directory.insertAccesses c.hash a.signature ++
    (c.freeHead.map fun i => item i c.slots.size).toList

/-- The types of an archetype are those of its columns from the second on. -/
def typesAccess (a : Archetype) : Access := range 1 a.codes.length a.codes.length

def recycleAccesses (c : Catalogue) (id : Nat) : List Access :=
  match c.get? id with
  | none => []
  | some a =>
      if a.isEmpty then
        [item id c.slots.size, typesAccess a, lower c.active 1] ++
          c.directory.eraseAccesses c.hash a.signature
      else []

theorem add_untouched {c' : Catalogue} (hadd : c.add a = .ok c') {i : Nat} (hi : i < c.slots.size)
    (h : ∀ n, item i n ∉ c.addAccesses a) : c'.slots[i]? = c.slots[i]? := by
  unfold add at hadd
  split at hadd
  next => cases hadd
  next directory _ =>
    cases hf : c.freeHead with
    | none =>
      rw [hf] at hadd
      obtain rfl := Except.ok.inj hadd
      rw [Array.getElem?_push, if_neg hi.ne]
    | some k =>
      have hne : k ≠ i := by
        rintro rfl
        exact h c.slots.size (by simp [addAccesses, hf])
      rw [hf] at hadd
      dsimp only at hadd
      split at hadd
      · obtain rfl := Except.ok.inj hadd
        exact Array.getElem?_setIfInBounds_ne hne
      · cases hadd

theorem recycle_untouched {i : Nat} (h : ∀ n, item i n ∉ c.recycleAccesses id) :
    (c.recycle id).slots[i]? = c.slots[i]? := by
  unfold recycle
  cases ha : c.get? id with
  | none => rfl
  | some a =>
    dsimp only
    split_ifs with he
    · have hne : id ≠ i := by
        rintro rfl
        exact h c.slots.size (by simp [recycleAccesses, ha, he])
      exact Array.getElem?_setIfInBounds_ne hne
    · rfl

lemma lt_size (ha : c.get? id = some a) : id < c.slots.size :=
  (Array.getElem?_eq_some_iff.mp (slot_of_get ha)).1

/-- The chain of free slots begins with a free slot. -/
lemma Tidy.freeHead (h : c.Tidy) {i : Nat} (hi : c.freeHead = some i) :
    ∃ next, c.slots[i]? = some (.free next) := by
  obtain ⟨is, hchain⟩ := h.chain
  have hlinked := hchain.linked
  rw [hi] at hlinked
  cases hlinked with
  | cons hlink _ => exact ⟨_, links_eq_some.mp hlink⟩

lemma Tidy.active_pos (h : c.Tidy) (ha : c.get? id = some a) : 0 < c.active := by
  rw [h.active]
  exact List.length_pos_of_mem (mem_archetypes.mpr ⟨id, ha⟩)

lemma Tidy.typesAccess (h : c.Tidy) (ha : c.get? id = some a) : (typesAccess a).Within := by
  have hnamed := h.named id a ha
  have hlen : a.signature.length = a.codes.length - 1 := List.length_tail
  have hpos : 0 < a.signature.length := List.length_pos_iff.mpr hnamed
  exact ⟨by omega, le_rfl⟩

lemma safe_add (hv : c.Valid) (ht : c.Tidy) (a : Archetype) : Safe (c.addAccesses a) := by
  refine safe_append.mpr ⟨hv.directory.safe_insert _, ?_⟩
  cases hf : c.freeHead with
  | none => exact safe_nil
  | some i =>
    obtain ⟨next, hs⟩ := ht.freeHead hf
    simpa using (Array.getElem?_eq_some_iff.mp hs).1

lemma safe_recycle (hv : c.Valid) (ht : c.Tidy) (id : Nat) : Safe (c.recycleAccesses id) := by
  unfold recycleAccesses
  cases ha : c.get? id with
  | none => exact safe_nil
  | some a =>
    dsimp only
    split_ifs
    · refine safe_append.mpr ⟨?_, hv.directory.safe_erase _⟩
      simp only [safe_cons, within_item, within_lower, safe_nil, and_true]
      exact ⟨lt_size ha, ht.typesAccess ha, ht.active_pos ha⟩
    · exact safe_nil

end Catalogue

end EntityStore
