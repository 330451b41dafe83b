import Mathlib
import EntityStore.Proofs.Accesses
import EntityStore.Proofs.FiniteMap

/-!
# The directory has as many slots as it needs

Vacant slots are counted before a key is stored, tombstones as well as keys taking their number, and
only keys are counted after one was removed. `Sized` has what this comes to: a third of the slots is
vacant, so that every search ends, and the slots are few for the keys. Tombstones stay in a table
that has more slots than the least number only while a third of them hold keys. So a table that
grows is full of keys, not of tombstones.
-/
namespace EntityStore.Directory

variable {hash : List TypeCode → Nat} {d d' : Directory} {slots : Array Slot}
  {key : List TypeCode} {id i j size : Nat}

lemma countP_add_countP (ss : List Slot) :
    ss.countP (fun s => s.entry.isSome) + ss.countP (· = .tombstone) + ss.countP (· = .vacant) =
      ss.length := by
  induction ss with
  | nil => rfl
  | cons s ss ih => cases s <;> simp [Slot.entry] at ih ⊢ <;> omega

/-- What is neither counted as a key nor as a tombstone is vacant. -/
lemma Valid.exists_vacant (h : d.Valid hash) (hroom : d.occupied + d.tombstones < d.slots.size) :
    ∃ j < d.slots.size, d.slots[j]? = some .vacant := by
  have hcount := countP_add_countP d.slots.toList
  rw [← h.occupied, ← h.tombstones, Array.length_toList] at hcount
  have hpos : 0 < d.slots.toList.countP (· = .vacant) := by omega
  obtain ⟨s, hs, hvacant⟩ := List.countP_pos_iff.mp hpos
  obtain rfl : s = .vacant := by simpa using hvacant
  obtain ⟨j, hj⟩ := List.mem_iff_getElem?.mp hs
  rw [Array.getElem?_toList] at hj
  exact ⟨j, (Array.getElem?_eq_some_iff.mp hj).1, hj⟩

lemma tombstones_place_le (hash : List TypeCode → Nat) (d : Directory) (key : List TypeCode)
    (id : Nat) : (d.place hash key id).tombstones ≤ d.tombstones := by
  unfold place
  split
  · exact le_rfl
  · dsimp only
    split_ifs <;> omega

lemma tombstones_resize (hash : List TypeCode → Nat) (d : Directory) (size : Nat) :
    (d.resize hash size).tombstones = 0 := by
  have hfold : ∀ (es : List (List TypeCode × Nat)) (d : Directory),
      (es.foldl (fun d e => d.place hash e.1 e.2) d).tombstones ≤ d.tombstones := by
    intro es
    induction es with
    | nil => exact fun d => le_rfl
    | cons e es ih => exact fun d => (ih _).trans (tombstones_place_le hash d e.1 e.2)
  exact Nat.le_zero.mp (hfold d.entries _)

/-- With `pending` more keys the table has a third of its slots vacant, and not many more than it
needs. -/
structure Sized (d : Directory) (pending : Nat) : Prop where
  power : ∃ k, d.slots.size = 2 ^ k
  leastPower : ∃ k, d.minSize = 2 ^ k
  vacant : d.slots.size ≤ 3 * (d.slots.size - d.occupied - d.tombstones - pending)
  bounded : d.slots.size ≤ max (2 * d.minSize) (6 * (d.occupied + pending))
  worn : d.tombstones = 0 ∨ d.slots.size = d.minSize ∨ d.slots.size ≤ 3 * d.occupied

lemma sized_new (minSize : Nat) : (new minSize).Sized 0 := by
  have hpower : ∃ k, Settings.indexSize minSize = 2 ^ k := ⟨_, Nat.one_shiftLeft _⟩
  have hsize : (new minSize).slots.size = Settings.indexSize minSize := by simp [new, vacantSlots]
  refine ⟨hsize ▸ hpower, hpower, ?_, ?_, .inl rfl⟩
  · rw [hsize]
    simp only [new]
    omega
  · rw [hsize]
    simp only [new]
    omega

lemma le_half {m n : Nat} (hm : ∃ k, m = 2 ^ k) (hn : ∃ k, n = 2 ^ k) (hlt : m < n) :
    m ≤ n / 2 ∧ ∃ k, n / 2 = 2 ^ k ∧ n = 2 * (n / 2) := by
  obtain ⟨j, rfl⟩ := hm
  obtain ⟨k, rfl⟩ := hn
  have hjk : j < k := (Nat.pow_lt_pow_iff_right (by decide)).mp hlt
  obtain ⟨k, rfl⟩ : ∃ l, k = l + 1 := ⟨k - 1, by omega⟩
  have hhalf : 2 ^ (k + 1) / 2 = 2 ^ k := by rw [pow_succ, Nat.mul_div_cancel _ (by decide)]
  rw [hhalf]
  exact ⟨Nat.pow_le_pow_right (by decide) (by omega), k, rfl, by rw [pow_succ, Nat.mul_comm]⟩

/-- The table grows before the vacant slots become too few. -/
lemma Sized.grown (h : d.Valid hash) (hd : d.Sized 0) :
    (d.grown hash).Sized 1 ∧ (d.grown hash).minSize = d.minSize := by
  obtain ⟨k, hk⟩ := hd.power
  have hvacant := hd.vacant
  have hbounded := hd.bounded
  have hworn := hd.worn
  unfold Directory.grown
  split_ifs with hfull
  · have hle := occupied_le_size h
    have hleast := h.least
    have hmin := h.size
    obtain ⟨-, hsize, hsame, hoccupied, -⟩ := resize_spec h (d.slots.size * 2) (by omega)
    have hsize' : (d.resize hash (d.slots.size * 2)).slots.size = d.slots.size * 2 := by omega
    have hnone := tombstones_resize hash d (d.slots.size * 2)
    refine ⟨⟨⟨k + 1, ?_⟩, hsame ▸ hd.leastPower, ?_, ?_, .inl hnone⟩, hsame⟩
    · rw [hsize', hk, pow_succ]
    · rw [hsize', hoccupied, hnone]
      omega
    · -- the table was full of keys, for tombstones would have been among a third of keys
      rw [hsize', hoccupied, hsame]
      omega
  · exact ⟨⟨⟨k, hk⟩, hd.leastPower, by omega, by omega, hworn⟩, rfl⟩

lemma Sized.place (h : d.Valid hash) (hd : d.Sized 1) (id : Nat) (hnew : ∀ n, ¬ d.Holds key n)
    (hroom : d.occupied < d.slots.size) :
    (d.place hash key id).Sized 0 ∧ (d.place hash key id).minSize = d.minSize := by
  obtain ⟨-, hsize, hsame, hoccupied, -⟩ := place_spec h id hnew hroom
  have htombstones := tombstones_place_le hash d key id
  have hvacant := hd.vacant
  have hbounded := hd.bounded
  have hworn := hd.worn
  refine ⟨⟨hsize ▸ hd.power, hsame ▸ hd.leastPower, ?_, ?_, ?_⟩, hsame⟩
  all_goals simp only [hsize, hsame, hoccupied]
  · omega
  · omega
  · omega

theorem Sized.insert (h : d.Valid hash) (hd : d.Sized 0) (hi : d.insert hash key id = .ok d') :
    d'.Sized 0 ∧ d'.minSize = d.minSize := by
  obtain ⟨-, hnew, -⟩ := insert_spec h hi
  obtain ⟨hvalid, hroom, hholds⟩ := grown_spec h
  obtain ⟨hpending, hsame⟩ := hd.grown h
  obtain ⟨hsized, hsame'⟩ := hpending.place hvalid id
    (fun n hn => hnew n ((hholds key n).mp hn)) hroom
  unfold Directory.insert at hi
  split at hi
  next => cases hi
  next =>
    obtain rfl := Except.ok.inj hi
    exact ⟨hsized, hsame'.trans hsame⟩

lemma erase_eq_some (he : d.erase hash key = (some id, d')) :
    ∃ i, d.find hash key = some (i, id) ∧ d' = (d.buried i).shrunk hash := by
  unfold Directory.erase at he
  split at he
  next => cases he
  next i id' hf =>
    obtain ⟨hid, hd'⟩ := Prod.mk.inj he
    exact ⟨i, by rw [hf, Option.some.inj hid], hd'.symm⟩

lemma sized_shrunk (h : d.Valid hash) (hpower : ∃ k, d.slots.size = 2 ^ k)
    (hleast : ∃ k, d.minSize = 2 ^ k)
    (hvacant : d.slots.size ≤ 3 * (d.slots.size - d.occupied - d.tombstones))
    (hbounded : d.slots.size ≤ max (2 * d.minSize) (6 * (d.occupied + 1))) :
    (d.shrunk hash).Sized 0 ∧ (d.shrunk hash).minSize = d.minSize ∧
      ((d.shrunk hash).slots.size = d.minSize ∨
        (d.shrunk hash).slots.size ≤ 3 * ((d.shrunk hash).occupied + 1)) := by
  have hfour := h.least
  have hmin := h.size
  unfold Directory.shrunk
  split_ifs with hspare
  · obtain ⟨hhalf, k, hk, hdouble⟩ := le_half hleast hpower hspare.2
    obtain ⟨-, hsize, hsame, hoccupied, -⟩ := resize_spec h (d.slots.size / 2) (by omega)
    have hsize' : (d.resize hash (d.slots.size / 2)).slots.size = d.slots.size / 2 := by omega
    have hnone := tombstones_resize hash d (d.slots.size / 2)
    refine ⟨⟨⟨k, hsize'.trans hk⟩, hsame ▸ hleast, ?_, ?_, .inl hnone⟩, hsame, ?_⟩
    all_goals simp only [hsize', hsame, hoccupied, hnone]
    · omega
    · omega
    · omega
  · refine ⟨⟨hpower, hleast, hvacant, ?_, ?_⟩, rfl, ?_⟩
    · omega
    · omega
    · omega

theorem Sized.erase (h : d.Valid hash) (hd : d.Sized 0) (he : d.erase hash key = (some id, d')) :
    d'.Sized 0 ∧ d'.minSize = d.minSize ∧
      (d'.slots.size = d.minSize ∨ d'.slots.size ≤ 3 * (d'.occupied + 1)) := by
  obtain ⟨i, hi, rfl⟩ := erase_eq_some he
  have hslot := (find_eq_some h).mp hi
  have hpos := h.occupied_pos hslot
  have hvacant := hd.vacant
  have hbounded := hd.bounded
  have hsize : (d.buried i).slots.size = d.slots.size := by simp [buried]
  refine sized_shrunk (bury_spec h hslot).1 (hsize ▸ hd.power) hd.leastPower ?_ ?_
  all_goals simp only [hsize]
  · simp only [buried]
    omega
  · simp only [buried]
    omega

theorem Sized.serve (h : d.Valid hash) (hd : d.Sized 0) (r : Request) :
    (d.serve hash r).2.Sized 0 ∧ (d.serve hash r).2.minSize = d.minSize := by
  cases r with
  | insert key id =>
    cases hi : d.insert hash key id with
    | error f => simp [Directory.serve, hi, hd]
    | ok d' =>
      simp only [Directory.serve, hi]
      exact hd.insert h hi
  | erase key =>
    simp only [Directory.serve]
    cases he : d.erase hash key with
    | mk found d' =>
      cases found with
      | none =>
        have hnone : d.get hash key = none := by rw [← erase_fst, he]
        have hsame := erase_of_get hnone
        rw [he] at hsame
        simp [hsame, hd]
      | some id =>
        obtain ⟨hsized, hsame, -⟩ := hd.erase h he
        exact ⟨hsized, hsame⟩
  | get key => exact ⟨hd, rfl⟩

lemma serveAll_append (hash : List TypeCode → Nat) (d : Directory) (rs : List Request)
    (r : Request) : (serveAll hash d (rs ++ [r])).2 = ((serveAll hash d rs).2.serve hash r).2 := by
  rw [serveAll, List.foldl_append]
  rfl

theorem sized_serveAll (hash : List TypeCode → Nat) (minSize : Nat) (rs : List Request) :
    (serveAll hash (new minSize) rs).2.Sized 0 ∧
      (serveAll hash (new minSize) rs).2.minSize = Settings.indexSize minSize := by
  induction rs using List.reverseRecOn with
  | nil => exact ⟨sized_new minSize, rfl⟩
  | append_singleton rs r ih =>
    obtain ⟨hsized, hsame⟩ := ih.1.serve (serveAll_spec hash minSize rs).1 r
    rw [serveAll_append]
    exact ⟨hsized, hsame.trans ih.2⟩

/-- The search from slot `i` on for one that holds no key, which nothing else stops, ends at `j`. -/
inductive Ends (slots : Array Slot) (j : Nat) : Nat → Prop
  | here {s : Slot} (hs : slots[j]? = some s) (hfree : s.entry = none) : Ends slots j j
  | behind {i id : Nat} {key : List TypeCode} (hi : slots[i]? = some (.occupied key id))
      (h : Ends slots j (following slots i)) : Ends slots j i

lemma ends_of_probeFree {steps : Nat} (h : probeFree slots steps i = some j) : Ends slots j i := by
  induction steps generalizing i with
  | zero => cases h
  | succ n ih =>
    rw [probeFree] at h
    split at h
    next hi => exact .behind hi (ih h)
    next s hnot hi =>
      obtain rfl := Option.some.inj h
      refine .here hi ?_
      cases s with
      | occupied k id => exact absurd rfl (hnot k id)
      | vacant | tombstone => rfl
    next => cases h

/-- The tables in which keys are stored one after the other, each with its key. -/
def fillings (hash : List TypeCode → Nat) :
    List (List TypeCode × Nat) → Directory → List (Directory × List TypeCode)
  | [], _ => []
  | e :: es, d => (d, e.1) :: fillings hash es (d.place hash e.1 e.2)

def resizeFillings (hash : List TypeCode → Nat) (d : Directory) (size : Nat) :
    List (Directory × List TypeCode) :=
  fillings hash d.entries { slots := vacantSlots (max size d.minSize), minSize := d.minSize }

def Request.fillings (hash : List TypeCode → Nat) (d : Directory) :
    Request → List (Directory × List TypeCode)
  | .insert key _ =>
      match d.find hash key with
      | some _ => []
      | none =>
          (if (d.slots.size - d.occupied - d.tombstones - 1) * 3 < d.slots.size then
            d.resizeFillings hash (d.slots.size * 2) else []) ++ [(d.grown hash, key)]
  | .erase key =>
      match d.find hash key with
      | none => []
      | some (i, _) =>
          if (d.buried i).occupied * 3 < (d.buried i).slots.size ∧
              d.minSize < (d.buried i).slots.size then
            (d.buried i).resizeFillings hash ((d.buried i).slots.size / 2)
          else []
  | .get _ => []

lemma ends_of_safe (h : Access.Safe (d.placeAccesses hash key)) :
    ∃ j, Ends d.slots j (hash key % d.slots.size) := by
  rw [placeAccesses, Access.safe_append] at h
  cases hp : probeFree d.slots d.slots.size (hash key % d.slots.size) with
  | none => simp [hp] at h
  | some j => exact ⟨j, ends_of_probeFree hp⟩

lemma fillings_end {es : List (List TypeCode × Nat)}
    (h : Access.Safe (placeAllAccesses hash es d)) :
    ∀ x ∈ fillings hash es d, ∃ j, Ends x.1.slots j (hash x.2 % x.1.slots.size) := by
  induction es generalizing d with
  | nil => simp [fillings]
  | cons e es ih =>
    rw [placeAllAccesses, Access.safe_append] at h
    exact List.forall_mem_cons.mpr ⟨ends_of_safe h.1, ih h.2⟩

lemma Valid.resizeFillings_end (h : d.Valid hash) (hroom : d.occupied ≤ size) :
    ∀ x ∈ d.resizeFillings hash size, ∃ j, Ends x.1.slots j (hash x.2 % x.1.slots.size) :=
  fillings_end (h.safe_resize hroom)

/-- No search for a free slot goes on for ever. -/
theorem Valid.fillings_end (h : d.Valid hash) (r : Request) :
    ∀ x ∈ r.fillings hash d, ∃ j, Ends x.1.slots j (hash x.2 % x.1.slots.size) := by
  cases r with
  | insert key id =>
    obtain ⟨hgrown, hroom, -⟩ := grown_spec h
    have hlast := ends_of_safe (hgrown.safe_place hroom key)
    simp only [Request.fillings]
    split
    · simp
    · rw [List.forall_mem_append, List.forall_mem_singleton]
      refine ⟨?_, hlast⟩
      split_ifs
      · have hle := occupied_le_size h
        exact h.resizeFillings_end (by omega)
      · simp
  | erase key =>
    simp only [Request.fillings]
    split
    · simp
    next i id hf =>
      have hburied : (d.buried i).Valid hash := (bury_spec h ((find_eq_some h).mp hf)).1
      split_ifs
      · exact hburied.resizeFillings_end (by omega)
      · simp
  | get key => simp [Request.fillings]

/-- The rounded size is the least power of two that is neither below the size nor below four. -/
lemma isLeast_indexSize (n : Nat) :
    IsLeast {m | (∃ k, m = 2 ^ k) ∧ max n 4 ≤ m} (Settings.indexSize n) := by
  refine ⟨⟨⟨_, Nat.one_shiftLeft _⟩, Settings.le_indexSize n⟩, ?_⟩
  rintro m ⟨⟨k, rfl⟩, hk⟩
  have hpos : max n 4 - 1 ≠ 0 := by omega
  have hlog : 2 ^ (max n 4 - 1).log2 < 2 ^ k := by
    have := Nat.log2_self_le hpos
    omega
  rw [Settings.indexSize, Nat.one_shiftLeft]
  exact Nat.pow_le_pow_right (by decide) ((Nat.pow_lt_pow_iff_right (by decide)).mp hlog)

/-- For every hash and every run of requests to a new directory, with `least` for its rounded least
size: the number of slots is a power of two and not below `least`; keys and tombstones are counted
as there are; a third of the slots is vacant, so every search for a key meets a vacant slot before
it has gone around, and every search for a free slot ends, those of a resizing included; there are
no more slots than twice `least` or six for each key; and after a key was removed there are `least`
slots, or at most three for each key and three more. -/
theorem slots_are_bounded (hash : List TypeCode → Nat) (minSize : Nat) (rs : List Request) :
    let least := Settings.indexSize minSize
    let d := (serveAll hash (new minSize) rs).2
    IsLeast {m | (∃ k, m = 2 ^ k) ∧ max minSize 4 ≤ m} least ∧
    (∃ k, d.capacity = 2 ^ k) ∧ least ≤ d.capacity ∧
    d.size = d.slots.toList.countP (fun s => s.entry.isSome) ∧
    d.tombstones = d.slots.toList.countP (· = .tombstone) ∧
    d.capacity ≤ 3 * (d.capacity - d.size - d.tombstones) ∧
    (∀ key, ∃ e < d.capacity, d.slots[(hash key % d.capacity + e) % d.capacity]? = some .vacant) ∧
    (∀ r : Request, ∀ x ∈ r.fillings hash d,
      ∃ j, Ends x.1.slots j (hash x.2 % x.1.slots.size)) ∧
    d.capacity ≤ max (2 * least) (6 * d.size) ∧
    ∀ key id d', d.erase hash key = (some id, d') →
      d'.capacity = least ∨ d'.capacity ≤ 3 * (d'.size + 1) := by
  intro least d
  have hvalid : d.Valid hash := (serveAll_spec hash minSize rs).1
  obtain ⟨hsized, hleast⟩ : d.Sized 0 ∧ d.minSize = least := sized_serveAll hash minSize rs
  -- from here on the run does not matter
  clear_value d
  have hpos := hvalid.size_pos
  have hvacant := hsized.vacant
  have hroom : d.occupied + d.tombstones < d.slots.size := by omega
  refine ⟨isLeast_indexSize minSize, hsized.power, hleast ▸ hvalid.size, hvalid.occupied,
    hvalid.tombstones, hvacant, fun key => ?_, hvalid.fillings_end, hleast ▸ hsized.bounded,
    fun key id d' he => hleast ▸ (hsized.erase hvalid he).2.2⟩
  obtain ⟨j, hj, hslot⟩ := hvalid.exists_vacant hroom
  obtain ⟨e, he, rfl⟩ := exists_distance (hvalid.home_lt key) hj
  exact ⟨e, he, hslot⟩

/-- All keys collide. The third one makes the table grow, and it shrinks again when two are left. -/
theorem slots_are_bounded_colliding :
    let requests : List Request := [.insert [⟨1⟩] 0, .insert [⟨2⟩] 1, .insert [⟨3⟩] 2]
    let d := (serveAll (fun _ => 0) (new 1) requests).2
    d.capacity = 8 ∧ d.size = 3 ∧ 8 ≤ max (2 * Settings.indexSize 1) (6 * 3) ∧
    ∃ d', d.erase (fun _ => 0) [⟨1⟩] = (some 0, d') ∧ d'.capacity = 4 ∧ d'.size = 2 ∧
      (d'.capacity = Settings.indexSize 1 ∨ d'.capacity ≤ 3 * (d'.size + 1)) := by
  intro requests d
  have hcapacity : d.capacity = 8 := by decide +kernel
  have hsize : d.size = 3 := by decide +kernel
  have hfound : (d.erase (fun _ => 0) [⟨1⟩]).1 = some 0 := by decide +kernel
  obtain ⟨-, -, -, -, -, -, -, -, hbounded, herase⟩ := slots_are_bounded (fun _ => 0) 1 requests
  have hsmall : d.capacity ≤ max (2 * Settings.indexSize 1) (6 * d.size) := hbounded
  rw [hcapacity, hsize] at hsmall
  exact ⟨hcapacity, hsize, hsmall, _, Prod.ext hfound rfl, by decide +kernel, by decide +kernel,
    herase _ _ _ (Prod.ext hfound rfl)⟩

end EntityStore.Directory
