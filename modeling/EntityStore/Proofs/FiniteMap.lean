import Mathlib
import EntityStore.Proofs.Directory

/-!
# A directory answers as a finite map

Requests are served one after the other, and each is logged with its reply. Whatever the hash, what
a directory holds is read off from its log: a key has the number of its last insertion that was not
refused, unless the key was removed behind it.
-/
namespace EntityStore.Directory

inductive Request
  | insert (key : List TypeCode) (id : Nat)
  | erase (key : List TypeCode)
  | get (key : List TypeCode)
  deriving DecidableEq, Repr

inductive Reply
  | inserted
  | refused (fault : Fault)
  | number (id : Option Nat)
  deriving DecidableEq, Repr

/-- A refused insertion leaves the directory behind as it was. -/
def serve (hash : List TypeCode → Nat) (d : Directory) : Request → Reply × Directory
  | .insert key id =>
      match d.insert hash key id with
      | .ok d => (.inserted, d)
      | .error f => (.refused f, d)
  | .erase key => ((d.erase hash key).map .number id)
  | .get key => (.number (d.get hash key), d)

abbrev Log := List (Request × Reply)

def serveAll (hash : List TypeCode → Nat) (d : Directory) (rs : List Request) : Log × Directory :=
  rs.foldl (fun (log, d) r => ((log ++ [(r, (d.serve hash r).1)]), (d.serve hash r).2)) ([], d)

/-- By the log, the number was stored under the key and the key was not removed since. -/
def Stored (log : Log) (key : List TypeCode) (id : Nat) : Prop :=
  ∃ before behind, log = before ++ (.insert key id, .inserted) :: behind ∧
    ∀ e ∈ behind, e.1 ≠ .erase key

variable {hash : List TypeCode → Nat} {d d' : Directory} {key : List TypeCode} {id : Nat}
  {log : Log}

lemma not_stored_nil : ¬ Stored [] key id := by
  rintro ⟨before, behind, h, -⟩
  simp at h

lemma stored_concat {e : Request × Reply} : Stored (log ++ [e]) key id ↔
    e = (.insert key id, .inserted) ∨ e.1 ≠ .erase key ∧ Stored log key id := by
  constructor
  · rintro ⟨before, behind, hlog, hbehind⟩
    rcases List.eq_nil_or_concat behind with rfl | ⟨front, last, rfl⟩
    · exact .inl (by simpa using (List.append_inj' hlog rfl).2)
    · rw [List.concat_eq_append, ← List.cons_append, ← List.append_assoc] at hlog
      obtain ⟨rfl, he⟩ := List.append_inj' hlog rfl
      obtain rfl : e = last := by simpa using he
      exact .inr ⟨hbehind e (by simp), before, front, rfl, fun x hx => hbehind x (by simp [hx])⟩
  · rintro (rfl | ⟨he, before, behind, rfl, hbehind⟩)
    · exact ⟨log, [], rfl, by simp⟩
    · refine ⟨before, behind ++ [e], by simp, fun x hx => ?_⟩
      rcases List.mem_append.mp hx with hx | hx
      · exact hbehind x hx
      · rwa [List.mem_singleton.mp hx]

lemma erase_fst (hash : List TypeCode → Nat) (d : Directory) (key : List TypeCode) :
    (d.erase hash key).1 = d.get hash key := by
  unfold erase get
  cases d.find hash key <;> rfl

lemma erase_of_get (h : d.get hash key = none) : (d.erase hash key).2 = d := by
  rw [get, Option.map_eq_none_iff] at h
  rw [erase, h]

/-- What a directory holds after a request is what the log says if it was so before. -/
lemma serve_spec (h : d.Valid hash) (hlog : ∀ k n, d.Holds k n ↔ Stored log k n) (r : Request) :
    (d.serve hash r).2.Valid hash ∧
      ∀ k n, (d.serve hash r).2.Holds k n ↔ Stored (log ++ [(r, (d.serve hash r).1)]) k n := by
  simp only [stored_concat, ← hlog]
  cases r with
  | insert key id =>
    cases hi : d.insert hash key id with
    | error f => simp [serve, hi, h]
    | ok d' =>
      obtain ⟨hvalid, -, hholds⟩ := insert_spec h hi
      simp only [serve, hi]
      exact ⟨hvalid, fun k n => by simp [hholds, eq_comm]⟩
  | erase key =>
    obtain ⟨hvalid, hholds⟩ := erase_spec h key
    exact ⟨hvalid, fun k n => by simp [serve, hholds, eq_comm]⟩
  | get key => simp [serve, h]

/-- Over any run, what a directory holds is what its log says. -/
lemma serveAll_spec (hash : List TypeCode → Nat) (minSize : Nat) (rs : List Request) :
    (serveAll hash (new minSize) rs).2.Valid hash ∧
      ∀ k n, (serveAll hash (new minSize) rs).2.Holds k n ↔
        Stored (serveAll hash (new minSize) rs).1 k n := by
  induction rs using List.reverseRecOn with
  | nil => exact ⟨valid_new hash minSize, fun k n => iff_of_false not_holds_new not_stored_nil⟩
  | append_singleton rs r ih =>
    have hstep := serve_spec ih.1 ih.2 r
    rw [serveAll, List.foldl_append]
    exact hstep

lemma get_insert (h : d.Valid hash) (hi : d.insert hash key id = .ok d') :
    d'.get hash = Function.update (d.get hash) key (some id) := by
  obtain ⟨hvalid, hnew, hholds⟩ := insert_spec h hi
  funext k
  apply Option.ext
  intro n
  rw [get_eq_some hvalid, hholds]
  by_cases hk : k = key
  · subst hk
    simp [hnew, eq_comm]
  · rw [Function.update_of_ne hk, get_eq_some h]
    simp [hk]

lemma get_erase (h : d.Valid hash) (key : List TypeCode) :
    (d.erase hash key).2.get hash = Function.update (d.get hash) key none := by
  obtain ⟨hvalid, hholds⟩ := erase_spec h key
  funext k
  apply Option.ext
  intro n
  rw [get_eq_some hvalid, hholds]
  by_cases hk : k = key
  · simp [hk]
  · rw [Function.update_of_ne hk, get_eq_some h]
    simp [hk]

lemma insert_eq_error_iff {f : Fault} : d.insert hash key id = .error f ↔
    (d.get hash key).isSome ∧ f = .invalidArgument (.alreadyIndexed key) := by
  unfold insert get
  cases d.find hash key <;> simp [eq_comm]

lemma encard_keys (h : d.Valid hash) : {key | (d.get hash key).isSome}.encard = d.size := by
  have hkeys : {key | (d.get hash key).isSome} = (d.entries.map Prod.fst).toFinset := by
    ext key
    simp only [Set.mem_ofPred_eq, Option.isSome_iff_exists, get_eq_some h, ← mem_entries,
      List.coe_toFinset, List.mem_map, Prod.exists, exists_and_right, exists_eq_right]
  rw [hkeys, Set.encard_coe_eq_coe_finsetCard, List.toFinset_card_of_nodup (nodup_entries h),
    List.length_map, length_entries h, size]

/-- For every hash and every run of requests to a new directory: a key has the number of its last
insertion that was not refused, unless it was removed behind it; an insertion is refused if and
only if the key is there, and then nothing changes; a removal answers the number of the key and
takes away this key only, without a trace if it was not there; every key that is there is listed
once, with its number; and the size counts these keys. -/
theorem serves_as_finite_map (hash : List TypeCode → Nat) (minSize : Nat) (rs : List Request)
    (log : Log) (d : Directory) (hd : serveAll hash (new minSize) rs = (log, d)) :
    (∀ key id, d.get hash key = some id ↔ Stored log key id) ∧
    (∀ key id f, d.insert hash key id = .error f ↔
      (d.get hash key).isSome ∧ f = .invalidArgument (.alreadyIndexed key)) ∧
    (∀ key id, (d.get hash key).isSome → (d.serve hash (.insert key id)).2 = d) ∧
    (∀ key id d', d.insert hash key id = .ok d' →
      d'.get hash = Function.update (d.get hash) key (some id)) ∧
    (∀ key, (d.erase hash key).1 = d.get hash key ∧
      (d.erase hash key).2.get hash = Function.update (d.get hash) key none ∧
      (d.get hash key = none → (d.erase hash key).2 = d)) ∧
    (∀ key id, (key, id) ∈ d.entries ↔ d.get hash key = some id) ∧
    (d.entries.map Prod.fst).Nodup ∧
    {key | (d.get hash key).isSome}.encard = d.size := by
  obtain ⟨hvalid, hholds⟩ := serveAll_spec hash minSize rs
  rw [hd] at hvalid hholds
  refine ⟨fun key id => ?_, fun key id f => insert_eq_error_iff, fun key id hkey => ?_,
    fun key id d' hi => get_insert hvalid hi,
    fun key => ⟨erase_fst hash d key, get_erase hvalid key, erase_of_get⟩,
    fun key id => ?_, nodup_entries hvalid, encard_keys hvalid⟩
  · rw [get_eq_some hvalid, hholds]
  · rw [serve, insert_eq_error_iff.mpr ⟨hkey, rfl⟩]
  · rw [mem_entries, get_eq_some hvalid]

/-- All keys collide. The second one is found behind the place that the first one left, and is
not inserted again. -/
theorem serves_as_finite_map_colliding :
    ∃ log d, serveAll (fun _ => 0) (new 1) [.insert [⟨1⟩] 3, .insert [⟨2⟩] 4, .erase [⟨1⟩],
        .insert [⟨2⟩] 5] = (log, d) ∧
      d.get (fun _ => 0) [⟨2⟩] = some 4 ∧ Stored log [⟨2⟩] 4 ∧
      d.insert (fun _ => 0) [⟨2⟩] 6 = .error (.invalidArgument (.alreadyIndexed [⟨2⟩])) := by
  obtain ⟨hget, hinsert, -⟩ := serves_as_finite_map (fun _ => 0) 1
    [.insert [⟨1⟩] 3, .insert [⟨2⟩] 4, .erase [⟨1⟩], .insert [⟨2⟩] 5] _ _ rfl
  have hfound : (serveAll (fun _ => 0) (new 1) [.insert [⟨1⟩] 3, .insert [⟨2⟩] 4, .erase [⟨1⟩],
      .insert [⟨2⟩] 5]).2.get (fun _ => 0) [⟨2⟩] = some 4 := by decide +kernel
  have hthere := Option.isSome_iff_exists.mpr ⟨4, hfound⟩
  exact ⟨_, _, rfl, hfound, (hget _ _).mp hfound, (hinsert _ _ _).mpr ⟨hthere, rfl⟩⟩

end EntityStore.Directory
