import Mathlib
import EntityStore.Directory

/-!
# The directory is a finite map

`Valid` is the invariant of the table: keys are unique, the counters count, and no vacant slot lies
between the slot that the hash of a key names and the slot of the key, going around. Under it a
probe finds exactly the keys that are held, whatever the hash, and `insert` and `erase` change the
map at one key only.
-/
namespace EntityStore.Directory

variable {hash : List TypeCode → Nat} {slots : Array Slot} {key : List TypeCode}

lemma following_add {i : Nat} (e : Nat) :
    (following slots i + e) % slots.size = (i + (e + 1)) % slots.size := by
  rw [following, Nat.mod_add_mod]
  congr 1
  omega

lemma following_lt {i : Nat} (hi : i < slots.size) : following slots i < slots.size :=
  Nat.mod_lt _ (by omega)

lemma exists_distance {i j : Nat} (hi : i < slots.size) (hj : j < slots.size) :
    ∃ d < slots.size, (i + d) % slots.size = j := by
  refine ⟨(j + slots.size - i) % slots.size, Nat.mod_lt _ (by omega), ?_⟩
  rw [Nat.add_mod_mod, show i + (j + slots.size - i) = j + slots.size by omega,
    Nat.add_mod_right, Nat.mod_eq_of_lt hj]

lemma slot_of_probe {steps i j id : Nat} (h : probe slots key steps i = some (j, id)) :
    slots[j]? = some (.occupied key id) := by
  induction steps generalizing i with
  | zero => simp [probe] at h
  | succ n ih =>
    rw [probe] at h
    split at h
    next k id' hk =>
      split_ifs at h with he
      · obtain ⟨rfl, rfl⟩ : i = j ∧ id' = id := by simpa using h
        rw [hk, he]
      · exact ih h
    next => exact ih h
    next => simp at h

lemma probe_isSome {steps i d id : Nat} (hi : i < slots.size) (hd : d < steps)
    (hkey : slots[(i + d) % slots.size]? = some (.occupied key id))
    (hway : ∀ e < d, slots[(i + e) % slots.size]? ≠ some .vacant) :
    (probe slots key steps i).isSome := by
  induction steps generalizing i d with
  | zero => omega
  | succ n ih =>
    rw [probe]
    cases d with
    | zero =>
      rw [Nat.add_zero, Nat.mod_eq_of_lt hi] at hkey
      simp [hkey]
    | succ d =>
      have hnext : (probe slots key n (following slots i)).isSome := by
        apply ih (following_lt hi) (by omega : d < n)
        · rw [following_add, hkey]
        · intro e he
          rw [following_add]
          exact hway (e + 1) (by omega)
      have hhere := hway 0 (by omega)
      rw [Nat.add_zero, Nat.mod_eq_of_lt hi] at hhere
      split
      next => split_ifs <;> simp [hnext]
      next => exact hnext
      next hocc htomb =>
        obtain ⟨s, hs⟩ : ∃ s, slots[i]? = some s := ⟨slots[i], by simp [hi]⟩
        cases s with
        | vacant => exact (hhere hs).elim
        | tombstone => exact (htomb hs).elim
        | occupied k id' => exact (hocc k id' hs).elim

/-- The free slot that is found comes behind occupied ones only. -/
lemma way_of_probeFree {steps i j : Nat} (hi : i < slots.size)
    (h : probeFree slots steps i = some j) :
    ∃ d < steps, (i + d) % slots.size = j ∧ (∃ s, slots[j]? = some s ∧ s.entry = none) ∧
      ∀ e < d, ∃ k id, slots[(i + e) % slots.size]? = some (.occupied k id) := by
  induction steps generalizing i with
  | zero => simp [probeFree] at h
  | succ n ih =>
    rw [probeFree] at h
    split at h
    next k id hk =>
      obtain ⟨d, hd, hj, hfree, hway⟩ := ih (following_lt hi) h
      refine ⟨d + 1, by omega, by rw [← hj, following_add], hfree, ?_⟩
      intro e he
      cases e with
      | zero => exact ⟨k, id, by rw [Nat.add_zero, Nat.mod_eq_of_lt hi, hk]⟩
      | succ e =>
        obtain ⟨k', id', hw⟩ := hway e (by omega)
        exact ⟨k', id', by rw [← following_add, hw]⟩
    next s hnot hs =>
      obtain rfl : i = j := by simpa using h
      refine ⟨0, by omega, by rw [Nat.add_zero, Nat.mod_eq_of_lt hi], ⟨s, hs, ?_⟩, by simp⟩
      cases s with
      | vacant => rfl
      | tombstone => rfl
      | occupied k id => exact (hnot k id rfl).elim
    next => simp at h

lemma probeFree_isSome {steps i d : Nat} (hi : i < slots.size) (hd : d < steps)
    (hfree : ∀ k id, slots[(i + d) % slots.size]? ≠ some (.occupied k id)) :
    (probeFree slots steps i).isSome := by
  induction steps generalizing i d with
  | zero => omega
  | succ n ih =>
    rw [probeFree]
    split
    next k id hk =>
      cases d with
      | zero =>
        rw [Nat.add_zero, Nat.mod_eq_of_lt hi] at hfree
        exact (hfree k id hk).elim
      | succ d =>
        apply ih (following_lt hi) (by omega : d < n)
        intro k' id'
        rw [following_add]
        exact hfree k' id'
    next => rfl
    next hnone => simp [hi] at hnone

/-- The map that the table stands for. -/
def Holds (d : Directory) (key : List TypeCode) (id : Nat) : Prop :=
  ∃ i : Nat, d.slots[i]? = some (.occupied key id)

/-- A search from the slot `home` gets to slot `i`. -/
def Reaches (slots : Array Slot) (home i : Nat) : Prop :=
  ∃ d < slots.size, (home + d) % slots.size = i ∧
    ∀ e < d, slots[(home + e) % slots.size]? ≠ some .vacant

structure Valid (hash : List TypeCode → Nat) (d : Directory) : Prop where
  least : 4 ≤ d.minSize
  size : d.minSize ≤ d.slots.size
  occupied : d.occupied = d.slots.toList.countP fun s => s.entry.isSome
  tombstones : d.tombstones = d.slots.toList.countP (· = .tombstone)
  unique : ∀ (i j : Nat) (key : List TypeCode) (m n : Nat), d.slots[i]? = some (.occupied key m) →
    d.slots[j]? = some (.occupied key n) → i = j
  reached : ∀ (i : Nat) (key : List TypeCode) (id : Nat), d.slots[i]? = some (.occupied key id) →
    Reaches d.slots (hash key % d.slots.size) i

lemma Valid.size_pos {d : Directory} (h : d.Valid hash) : 0 < d.slots.size := by
  have := h.least
  have := h.size
  omega

lemma Valid.home_lt {d : Directory} (h : d.Valid hash) (key : List TypeCode) :
    hash key % d.slots.size < d.slots.size := Nat.mod_lt _ h.size_pos

lemma mem_entries {d : Directory} {id : Nat} : (key, id) ∈ d.entries ↔ d.Holds key id := by
  simp only [entries, List.mem_filterMap, Holds]
  constructor
  · rintro ⟨s, hs, he⟩
    obtain ⟨i, hi, rfl⟩ := List.mem_iff_getElem.mp hs
    refine ⟨i, ?_⟩
    cases h : d.slots.toList[i] with
    | occupied k n =>
      obtain ⟨rfl, rfl⟩ : k = key ∧ n = id := by simpa [h, Slot.entry] using he
      simpa [Array.getElem?_eq_some_iff] using ⟨by simpa using hi, by simpa using h⟩
    | vacant => simp [h, Slot.entry] at he
    | tombstone => simp [h, Slot.entry] at he
  · rintro ⟨i, hi⟩
    obtain ⟨hlt, he⟩ := Array.getElem?_eq_some_iff.mp hi
    refine ⟨.occupied key id, ?_, rfl⟩
    rw [Array.mem_toList_iff, ← he]
    exact Array.getElem_mem hlt

lemma length_entries {d : Directory} (h : d.Valid hash) : d.entries.length = d.occupied := by
  rw [h.occupied, entries, List.length_filterMap_eq_countP]

lemma nodup_entries {d : Directory} (h : d.Valid hash) : (d.entries.map Prod.fst).Nodup := by
  rw [List.Nodup, List.pairwise_map, entries, List.pairwise_filterMap, List.pairwise_iff_getElem]
  intro i j hi hj hij b hb b' hb' he
  have hslot : ∀ (s : Slot) (e : List TypeCode × Nat), s.entry = some e →
      s = .occupied e.1 e.2 := by
    intro s e hs
    cases s <;> simp_all [Slot.entry, Prod.ext_iff]
  have h1 := hslot _ _ hb
  have h2 := hslot _ _ hb'
  rw [← he] at h2
  have hi' : d.slots[i]? = some (.occupied b.1 b.2) := by
    rw [← h1]
    simp at hi
    simp [hi]
  have hj' : d.slots[j]? = some (.occupied b.1 b'.2) := by
    rw [← h2]
    simp at hj
    simp [hj]
  have := h.unique i j _ _ _ hi' hj'
  omega

lemma find_eq_some {d : Directory} (h : d.Valid hash) {i id : Nat} :
    d.find hash key = some (i, id) ↔ d.slots[i]? = some (.occupied key id) := by
  constructor
  · exact fun hf => slot_of_probe hf
  · intro hs
    obtain ⟨n, hn, hi, hway⟩ := h.reached i key id hs
    have hsome : (d.find hash key).isSome :=
      probe_isSome (h.home_lt key) hn (by rw [hi, hs]) hway
    obtain ⟨⟨j, m⟩, hj⟩ := Option.isSome_iff_exists.mp hsome
    have hjs := slot_of_probe hj
    obtain rfl := h.unique i j key id m hs hjs
    rw [hs] at hjs
    obtain rfl : id = m := by simpa using hjs
    exact hj

lemma find_eq_none {d : Directory} (h : d.Valid hash) :
    d.find hash key = none ↔ ∀ id, ¬ d.Holds key id := by
  constructor
  · rintro hf id ⟨i, hi⟩
    rw [(find_eq_some h).mpr hi] at hf
    simp at hf
  · intro hno
    cases hf : d.find hash key with
    | none => rfl
    | some p => exact (hno p.2 ⟨p.1, (find_eq_some h).mp hf⟩).elim

theorem get_eq_some {d : Directory} (h : d.Valid hash) {id : Nat} :
    d.get hash key = some id ↔ d.Holds key id := by
  simp only [get, Option.map_eq_some_iff, Prod.exists, exists_eq_right]
  exact exists_congr fun i => find_eq_some h

lemma indexSize_ge (n : Nat) : 4 ≤ Settings.indexSize n :=
  le_trans (le_max_right n 4) (Settings.le_indexSize n)

lemma not_holds_vacant {size occupied tombstones minSize id : Nat} :
    ¬ Holds ⟨vacantSlots size, occupied, tombstones, minSize⟩ key id := by
  rintro ⟨i, hi⟩
  simp [vacantSlots, Array.getElem?_replicate] at hi

lemma valid_vacant {size minSize : Nat} (hleast : 4 ≤ minSize) (hsize : minSize ≤ size) :
    Valid hash { slots := vacantSlots size, minSize } where
  least := hleast
  size := by simpa [vacantSlots] using hsize
  occupied := by simp [vacantSlots, Slot.entry, List.countP_replicate]
  tombstones := by simp [vacantSlots, List.countP_replicate]
  unique := fun i _ _ m _ hi => (not_holds_vacant ⟨i, hi⟩ : False).elim
  reached := fun i _ id hi => (not_holds_vacant ⟨i, hi⟩ : False).elim

theorem valid_new (hash : List TypeCode → Nat) (n : Nat) : (new n).Valid hash :=
  valid_vacant (indexSize_ge n) le_rfl

theorem not_holds_new {n id : Nat} : ¬ (new n).Holds key id := not_holds_vacant

lemma probeFree_of_room {d : Directory} (h : d.Valid hash) (hroom : d.occupied < d.slots.size)
    (key : List TypeCode) :
    ∃ i, probeFree d.slots d.slots.size (hash key % d.slots.size) = some i := by
  have hfree : ∃ j < d.slots.size, ∀ k id, d.slots[j]? ≠ some (.occupied k id) := by
    by_contra hall
    push Not at hall
    have hcount : d.slots.toList.countP (fun s => s.entry.isSome) = d.slots.toList.length := by
      rw [List.countP_eq_length]
      intro s hs
      obtain ⟨j, hj, rfl⟩ := List.mem_iff_getElem.mp hs
      simp at hj
      obtain ⟨k, id, hk⟩ := hall j hj
      have : d.slots[j] = .occupied k id := (Array.getElem?_eq_some_iff.mp hk).2
      simp [this, Slot.entry]
    rw [h.occupied, hcount] at hroom
    simp at hroom
  obtain ⟨j, hj, hno⟩ := hfree
  obtain ⟨n, hn, rfl⟩ := exists_distance (h.home_lt key) hj
  exact Option.isSome_iff_exists.mp (probeFree_isSome (h.home_lt key) hn hno)

lemma Reaches.set {home i j : Nat} {s : Slot} (hs : s ≠ .vacant) (h : Reaches slots home i) :
    Reaches (slots.setIfInBounds j s) home i := by
  obtain ⟨n, hn, hi, hway⟩ := h
  refine ⟨n, by simpa using hn, by simpa using hi, fun e he => ?_⟩
  rw [Array.size_setIfInBounds, Array.getElem?_setIfInBounds]
  split_ifs with h1 h2
  · simpa using hs
  · simp
  · exact hway e he

lemma occupied_setIfInBounds {slots : Array Slot} {s : Slot} {i j m : Nat} {k : List TypeCode}
    (hi : i < slots.size) :
    (slots.setIfInBounds i s)[j]? = some (.occupied k m) ↔
      (j = i ∧ s = .occupied k m) ∨ (j ≠ i ∧ slots[j]? = some (.occupied k m)) := by
  rw [Array.getElem?_setIfInBounds]
  by_cases hij : i = j
  · subst hij
    simp [hi]
  · simp [hij, Ne.symm hij]

lemma countP_setIfInBounds {slots : Array Slot} {s : Slot} {i : Nat} (p : Slot → Bool)
    (hs : slots[i]? = some s) (x : Slot) :
    (slots.setIfInBounds i x).toList.countP p =
      slots.toList.countP p - (if p s then 1 else 0) + if p x then 1 else 0 := by
  obtain ⟨hlt, rfl⟩ := Array.getElem?_eq_some_iff.mp hs
  rw [Array.toList_setIfInBounds, List.countP_set (by simpa using hlt), Array.getElem_toList]

lemma place_spec {d : Directory} (h : d.Valid hash) (id : Nat) (hnew : ∀ n, ¬ d.Holds key n)
    (hroom : d.occupied < d.slots.size) :
    (d.place hash key id).Valid hash ∧ (d.place hash key id).slots.size = d.slots.size ∧
      (d.place hash key id).minSize = d.minSize ∧
      (d.place hash key id).occupied = d.occupied + 1 ∧
      ∀ k n, (d.place hash key id).Holds k n ↔ (k = key ∧ n = id) ∨ d.Holds k n := by
  obtain ⟨i, hi⟩ := probeFree_of_room h hroom key
  obtain ⟨n, hn, hjn, ⟨s, hs, hsfree⟩, hway⟩ := way_of_probeFree (h.home_lt key) hi
  obtain ⟨hlt, -⟩ := Array.getElem?_eq_some_iff.mp hs
  simp only [place, hi]
  -- a slot of the new table is the filled one or was there before
  have hslot : ∀ (j : Nat) k m, (d.slots.setIfInBounds i (.occupied key id))[j]? =
        some (.occupied k m) → (j = i ∧ k = key ∧ m = id) ∨
        (j ≠ i ∧ d.slots[j]? = some (.occupied k m)) := by
    intro j k m hj
    exact ((occupied_setIfInBounds hlt).mp hj).imp_left fun h => ⟨h.1, by simpa [eq_comm] using h.2⟩
  refine ⟨⟨h.least, by simpa using h.size, ?_, ?_, ?_, ?_⟩, by simp, by simp, by simp, ?_⟩
  · simp only [countP_setIfInBounds _ hs, h.occupied, hsfree]
    simp [Slot.entry]
  · simp only [countP_setIfInBounds _ hs, h.tombstones, hs]
    by_cases ht : s = .tombstone <;> simp [ht]
  · intro j j' k m m' hj hj'
    rcases hslot j k m hj with ⟨rfl, rfl, rfl⟩ | ⟨-, hold⟩
    · rcases hslot j' _ m' hj' with ⟨rfl, -, -⟩ | ⟨-, hold'⟩
      · rfl
      · exact (hnew m' ⟨j', hold'⟩).elim
    · rcases hslot j' k m' hj' with ⟨rfl, rfl, rfl⟩ | ⟨-, hold'⟩
      · exact (hnew m ⟨j, hold⟩).elim
      · exact h.unique j j' k m m' hold hold'
  · intro j k m hj
    rcases hslot j k m hj with ⟨rfl, rfl, rfl⟩ | ⟨-, hold⟩
    · have hreach : Reaches d.slots (hash k % d.slots.size) j := by
        refine ⟨n, hn, hjn, fun e he => ?_⟩
        obtain ⟨k', id', hocc⟩ := hway e he
        rw [hocc]
        simp
      simpa using hreach.set (by simp)
    · simpa using (h.reached j k m hold).set (by simp)
  · intro k m
    constructor
    · rintro ⟨j, hj⟩
      rcases hslot j k m hj with ⟨-, rfl, rfl⟩ | ⟨-, hj⟩
      · exact Or.inl ⟨rfl, rfl⟩
      · exact Or.inr ⟨j, hj⟩
    · rintro (⟨rfl, rfl⟩ | ⟨j, hj⟩)
      · exact ⟨i, by simp [hlt]⟩
      · have hne : i ≠ j := by
          rintro rfl
          rw [hs] at hj
          obtain rfl : s = .occupied k m := by simpa using hj
          simp [Slot.entry] at hsfree
        exact ⟨j, by simp [hne, hj]⟩

lemma placeAll_spec {es : List (List TypeCode × Nat)} {d : Directory} (h : d.Valid hash)
    (hnodup : (es.map Prod.fst).Nodup) (hnew : ∀ e ∈ es, ∀ n, ¬ d.Holds e.1 n)
    (hroom : d.occupied + es.length ≤ d.slots.size) :
    (es.foldl (fun d e => d.place hash e.1 e.2) d).Valid hash ∧
      (es.foldl (fun d e => d.place hash e.1 e.2) d).slots.size = d.slots.size ∧
      (es.foldl (fun d e => d.place hash e.1 e.2) d).minSize = d.minSize ∧
      (es.foldl (fun d e => d.place hash e.1 e.2) d).occupied = d.occupied + es.length ∧
      ∀ k n, (es.foldl (fun d e => d.place hash e.1 e.2) d).Holds k n ↔
        (k, n) ∈ es ∨ d.Holds k n := by
  induction es generalizing d with
  | nil => simp [h]
  | cons e es ih =>
    simp only [List.map_cons, List.nodup_cons] at hnodup
    simp only [List.length_cons] at hroom
    obtain ⟨hv, hsize, hmin, hocc, hholds⟩ :=
      place_spec h e.2 (hnew e (by simp)) (by omega)
    have hnew' : ∀ e' ∈ es, ∀ n, ¬ (d.place hash e.1 e.2).Holds e'.1 n := by
      intro e' he' n hn
      rcases (hholds e'.1 n).mp hn with ⟨hk, -⟩ | hn
      · exact hnodup.1 (List.mem_map.mpr ⟨e', he', hk⟩)
      · exact hnew e' (by simp [he']) n hn
    obtain ⟨gv, gsize, gmin, gocc, gholds⟩ := ih hv hnodup.2 hnew' (by omega)
    refine ⟨gv, gsize.trans hsize, gmin.trans hmin, ?_, fun k n => ?_⟩
    · simp only [List.foldl_cons, List.length_cons, gocc, hocc]
      omega
    · rw [List.foldl_cons, gholds, hholds, List.mem_cons, Prod.ext_iff]
      tauto

/-- Moving to another table that is large enough loses nothing. -/
lemma resize_spec {d : Directory} (h : d.Valid hash) (size : Nat) (hroom : d.occupied ≤ size) :
    (d.resize hash size).Valid hash ∧ (d.resize hash size).slots.size = max size d.minSize ∧
      (d.resize hash size).minSize = d.minSize ∧ (d.resize hash size).occupied = d.occupied ∧
      ∀ k n, (d.resize hash size).Holds k n ↔ d.Holds k n := by
  have hv : Valid hash { slots := vacantSlots (max size d.minSize), minSize := d.minSize } :=
    valid_vacant h.least (le_max_right _ _)
  have hlen := length_entries h
  obtain ⟨gv, gsize, gmin, gocc, gholds⟩ := placeAll_spec hv (nodup_entries h)
    (fun e _ n => not_holds_vacant) (by simp [vacantSlots]; omega)
  refine ⟨gv, gsize.trans (by simp [vacantSlots]), gmin, ?_, fun k n => ?_⟩
  · rw [resize, gocc, hlen, Nat.zero_add]
  · rw [resize, gholds, mem_entries]
    exact or_iff_left not_holds_vacant

lemma occupied_le_size {d : Directory} (h : d.Valid hash) : d.occupied ≤ d.slots.size := by
  rw [h.occupied, ← Array.length_toList]
  exact List.countP_le_length

lemma grown_spec {d : Directory} (h : d.Valid hash) :
    (d.grown hash).Valid hash ∧ (d.grown hash).occupied < (d.grown hash).slots.size ∧
      ∀ k n, (d.grown hash).Holds k n ↔ d.Holds k n := by
  have hpos := h.size_pos
  have hle := occupied_le_size h
  unfold grown
  split_ifs with hfull
  · obtain ⟨gv, gsize, -, gocc, gholds⟩ := resize_spec h (d.slots.size * 2) (by omega)
    exact ⟨gv, by rw [gsize, gocc]; omega, gholds⟩
  · exact ⟨h, by omega, fun k n => Iff.rfl⟩

/-- Inserting a key adds it to the map, and is refused if and only if the key is there. -/
theorem insert_spec {d d' : Directory} (h : d.Valid hash) {id : Nat}
    (hi : d.insert hash key id = .ok d') :
    d'.Valid hash ∧ (∀ n, ¬ d.Holds key n) ∧
      ∀ k n, d'.Holds k n ↔ (k = key ∧ n = id) ∨ d.Holds k n := by
  unfold insert at hi
  split at hi
  next => simp at hi
  next hf =>
    obtain rfl : (d.grown hash).place hash key id = d' := by simpa using hi
    have hno := (find_eq_none h).mp hf
    obtain ⟨gv, groom, gholds⟩ := grown_spec h
    obtain ⟨pv, -, -, -, pholds⟩ :=
      place_spec gv id (fun n hn => hno n ((gholds key n).mp hn)) groom
    exact ⟨pv, hno, fun k n => by rw [pholds, gholds]⟩

theorem insert_ok_iff {d : Directory} (h : d.Valid hash) {id : Nat} :
    (∃ d', d.insert hash key id = .ok d') ↔ ∀ n, ¬ d.Holds key n := by
  rw [← find_eq_none h]
  unfold insert
  cases d.find hash key <;> simp

/-- A tombstone in place of a key takes that key away and leaves open every way to another. -/
lemma bury_spec {d : Directory} (h : d.Valid hash) {i id : Nat}
    (hs : d.slots[i]? = some (.occupied key id)) :
    Valid hash { d with
      slots := d.slots.setIfInBounds i .tombstone
      occupied := d.occupied - 1
      tombstones := d.tombstones + 1 } ∧
    ∀ k n, Holds { d with
      slots := d.slots.setIfInBounds i .tombstone
      occupied := d.occupied - 1
      tombstones := d.tombstones + 1 } k n ↔ k ≠ key ∧ d.Holds k n := by
  obtain ⟨hlt, -⟩ := Array.getElem?_eq_some_iff.mp hs
  have hslot : ∀ (j : Nat) k m, (d.slots.setIfInBounds i .tombstone)[j]? =
      some (.occupied k m) ↔ j ≠ i ∧ d.slots[j]? = some (.occupied k m) := by
    intro j k m
    rw [occupied_setIfInBounds hlt]
    simp
  refine ⟨⟨h.least, by simpa using h.size, ?_, ?_, ?_, ?_⟩, fun k n => ⟨?_, ?_⟩⟩
  · simp only [countP_setIfInBounds _ hs, h.occupied]
    simp [Slot.entry]
  · simp only [countP_setIfInBounds _ hs, h.tombstones]
    simp
  · intro j j' k m n hj hj'
    exact h.unique j j' k m n ((hslot j k m).mp hj).2 ((hslot j' k n).mp hj').2
  · intro j k m hj
    simpa using (h.reached j k m ((hslot j k m).mp hj).2).set (by simp)
  · rintro ⟨j, hj⟩
    obtain ⟨hne, hold⟩ := (hslot j k n).mp hj
    refine ⟨?_, j, hold⟩
    rintro rfl
    exact hne (h.unique j i k n id hold hs)
  · rintro ⟨hne, j, hj⟩
    refine ⟨j, (hslot j k n).mpr ⟨?_, hj⟩⟩
    rintro rfl
    rw [hs] at hj
    exact hne (by simpa using hj.symm : k = key ∧ n = id).1

lemma shrunk_spec {d : Directory} (h : d.Valid hash) :
    (d.shrunk hash).Valid hash ∧ ∀ k n, (d.shrunk hash).Holds k n ↔ d.Holds k n := by
  unfold shrunk
  split_ifs with hspare
  · obtain ⟨gv, -, -, -, gholds⟩ := resize_spec h (d.slots.size / 2) (by omega)
    exact ⟨gv, gholds⟩
  · exact ⟨h, fun k n => Iff.rfl⟩

/-- Removing a key takes it out of the map, and nothing else. -/
theorem erase_spec {d : Directory} (h : d.Valid hash) (key : List TypeCode) :
    (d.erase hash key).2.Valid hash ∧
      ∀ k n, (d.erase hash key).2.Holds k n ↔ k ≠ key ∧ d.Holds k n := by
  unfold erase
  cases hf : d.find hash key with
  | none =>
    refine ⟨h, fun k n => (and_iff_right_of_imp ?_).symm⟩
    rintro hk rfl
    exact (find_eq_none h).mp hf n hk
  | some p =>
    obtain ⟨bv, bholds⟩ := bury_spec h ((find_eq_some h).mp hf)
    obtain ⟨sv, sholds⟩ := shrunk_spec bv
    exact ⟨sv, fun k n => (sholds k n).trans (bholds k n)⟩

end EntityStore.Directory
