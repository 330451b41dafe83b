import Mathlib
import EntityStore.Proofs.DenseRows

/-!
# Which columns get a new stamp

`Stamped` compares stamps before and after a change at a version and says exactly which of them are
new. A row that comes to an archetype gives all columns of its chunk a new stamp. So does the last
row when it gets the place of one that leaves, while a row that leaves from the end gives none.
-/
namespace EntityStore

/-- What has a stamp after a change at version `v` has that one if it is in `J`, and otherwise the
one it had before. -/
def Stamped {ι : Type} (v : UInt32) (J : Set ι) (f g : ι → Option UInt32) : Prop :=
  ∀ i u, g i = some u → i ∈ J ∧ u = v ∨ i ∉ J ∧ f i = some u

namespace Stamped
variable {ι : Type} {v : UInt32} {J K : Set ι} {f g h : ι → Option UInt32}

lemma of_kept (hk : ∀ i u, g i = some u → f i = some u) : Stamped v ∅ f g :=
  fun i u hu => .inr ⟨Set.notMem_empty i, hk i u hu⟩

lemma same (hJ : ∀ i, i ∉ J) : Stamped v J f f := fun i _ hu => .inr ⟨hJ i, hu⟩

lemma refl (v : UInt32) (f : ι → Option UInt32) : Stamped v ∅ f f := same Set.notMem_empty

lemma of_new (hn : ∀ i u, g i = some u → u = v) (f : ι → Option UInt32) :
    Stamped v Set.univ f g :=
  fun i u hu => .inl ⟨Set.mem_univ i, hn i u hu⟩

lemma congr (hf : Stamped v J f g) (hJ : ∀ i, i ∈ J ↔ i ∈ K) : Stamped v K f g := by
  rwa [Set.ext hJ] at hf

lemma mono (hg : Stamped v J g h) (hf : ∀ i u, g i = some u → f i = some u) : Stamped v J f h :=
  fun i u hu => (hg i u hu).imp_right fun ⟨hJ, hi⟩ => ⟨hJ, hf i u hi⟩

/-- What is new in two changes, one after the other, is new in one of them. -/
theorem trans (hf : Stamped v J f g) (hg : Stamped v K g h) : Stamped v (J ∪ K) f h := by
  intro i u hu
  rcases hg i u hu with ⟨hK, rfl⟩ | ⟨hK, hu⟩
  · exact .inl ⟨.inr hK, rfl⟩
  · rcases hf i u hu with ⟨hJ, rfl⟩ | ⟨hJ, hu⟩
    · exact .inl ⟨.inl hJ, rfl⟩
    · exact .inr ⟨fun hmem => hmem.elim hJ hK, hu⟩

end Stamped

namespace Chunk
variable {c d : Chunk} {v : UInt32} {j : Nat}

def stampAt (c : Chunk) (j : Nat) : Option UInt32 := c.stamps[j]?

lemma stamped_all (h : d.stamps = c.stamps.map fun _ => v) :
    Stamped v Set.univ c.stampAt d.stampAt := by
  refine .of_new (fun j u hu => ?_) _
  rw [stampAt, h, List.getElem?_map] at hu
  obtain ⟨-, -, rfl⟩ := Option.map_eq_some_iff.mp hu
  rfl

lemma stamped_fresh (n : Nat) (v : UInt32) (f : Nat → Option UInt32) :
    Stamped v Set.univ f (fresh n v).stampAt :=
  .of_new (fun _ _ hu => List.eq_of_mem_replicate (List.mem_of_getElem? hu)) f

lemma stamped_one (h : d.stamps = c.stamps.set j v) : Stamped v {j} c.stampAt d.stampAt := by
  intro i u hu
  rw [stampAt, h] at hu
  by_cases hij : i = j
  · subst hij
    have hlt := (List.getElem?_eq_some_iff.mp hu).1
    rw [List.getElem?_set_self (by simpa using hlt)] at hu
    exact .inl ⟨rfl, (Option.some.inj hu).symm⟩
  · rw [List.getElem?_set_ne (Ne.symm hij)] at hu
    exact .inr ⟨hij, hu⟩

end Chunk

namespace Archetype
variable {a b : Archetype} {p q : Pool} {v : UInt32} {J : Set Nat} {i j k n : Nat} {r : Row}

/-- The stamps of the columns, by the numbers of the chunk and of the column. -/
def stampAt (a : Archetype) (x : Nat × Nat) : Option UInt32 := (a.stampOf x.1 x.2).toOption

lemma stampAt_eq (a : Archetype) (x : Nat × Nat) :
    a.stampAt x = a.chunks[x.1]?.bind fun c => c.stampAt x.2 := by
  unfold stampAt stampOf
  cases a.chunks[x.1]? with
  | none => rfl
  | some c =>
    dsimp only [Option.bind_some, Chunk.stampAt]
    cases c.stamps[x.2]? <;> rfl

lemma stampAt_eq_some {x : Nat × Nat} {u : UInt32} :
    a.stampAt x = some u ↔ ∃ c, a.chunks[x.1]? = some c ∧ c.stampAt x.2 = some u := by
  rw [stampAt_eq, Option.bind_eq_some_iff]

def chunkColumns (k : Nat) : Set (Nat × Nat) := {x | x.1 = k}

lemma stamped_modifyChunk {f : Chunk → Chunk}
    (h : ∀ d, a.chunks[k]? = some d → Stamped v J d.stampAt (f d).stampAt) :
    Stamped v {x | x.1 = k ∧ x.2 ∈ J} a.stampAt (a.modifyChunk k f).stampAt := by
  intro x u hu
  obtain ⟨d, hd, hu⟩ := stampAt_eq_some.mp hu
  rw [modifyChunk, List.getElem?_modify] at hd
  obtain ⟨c, hc, rfl⟩ := Option.map_eq_some_iff.mp hd
  by_cases hk : k = x.1
  · rw [if_pos hk] at hu
    rcases h c (hk ▸ hc) x.2 u hu with ⟨hJ, hv⟩ | ⟨hJ, hkept⟩
    · exact .inl ⟨⟨hk.symm, hJ⟩, hv⟩
    · exact .inr ⟨fun hmem => hJ hmem.2, stampAt_eq_some.mpr ⟨c, hc, hkept⟩⟩
  · rw [if_neg hk] at hu
    exact .inr ⟨fun hmem => hk hmem.1.symm, stampAt_eq_some.mpr ⟨c, hc, hu⟩⟩

lemma stamped_modifyChunk_all {f : Chunk → Chunk}
    (h : ∀ d, Stamped v Set.univ d.stampAt (f d).stampAt) :
    Stamped v (chunkColumns k) a.stampAt (a.modifyChunk k f).stampAt := by
  refine (stamped_modifyChunk fun d _ => h d).congr fun x => ?_
  exact and_iff_left (Set.mem_univ _)

/-- Chunks at the end may go. -/
lemma stamped_prefix (h : b.chunks <+: a.chunks) (v : UInt32) :
    Stamped v ∅ a.stampAt b.stampAt := by
  refine .of_kept fun x u hu => ?_
  obtain ⟨rest, hrest⟩ := h
  obtain ⟨c, hc, hu⟩ := stampAt_eq_some.mp hu
  refine stampAt_eq_some.mpr ⟨c, ?_, hu⟩
  rw [← hrest, List.getElem?_append_left (List.getElem?_eq_some_iff.mp hc).1, hc]

lemma stamped_fresh (h : b.chunks = a.chunks ++ [Chunk.fresh n v]) :
    Stamped v (chunkColumns a.chunks.length) a.stampAt b.stampAt := by
  intro x u hu
  obtain ⟨c, hc, hu⟩ := stampAt_eq_some.mp hu
  rw [h] at hc
  by_cases hx : x.1 < a.chunks.length
  · rw [List.getElem?_append_left hx] at hc
    exact .inr ⟨fun hmem => hx.ne hmem, stampAt_eq_some.mpr ⟨c, hc, hu⟩⟩
  · rw [List.getElem?_append_right (not_lt.mp hx), List.getElem?_singleton] at hc
    split_ifs at hc with hzero
    obtain rfl := Option.some.inj hc
    have hlast : x.1 = a.chunks.length := by omega
    refine .inl ⟨hlast, ?_⟩
    exact ((Chunk.stamped_fresh n v fun _ => none) x.2 u hu).elim And.right (by simp)

/-- A row that comes to an archetype gives all columns of the chunk it comes to a new stamp. -/
theorem Appended.stamped (hp : a.Packed) (h : a.Appended v p r b q) :
    Stamped v (chunkColumns (a.count / a.capacity)) a.stampAt b.stampAt := by
  obtain ⟨c, hr, rfl⟩ := h
  obtain ⟨hblank, hcount, hrows, init, last, hb, hroom, hcases⟩ := reserve_spec hp hr
  have hcap : c.capacity = a.capacity := congrArg Layout.capacity (layout_of_blank hblank)
  -- the last chunk is the one with room
  have hreceiving : a.count / a.capacity = init.length := by
    rw [hp.counted, ← hrows, hb.length_rows, hcap, Nat.mul_comm,
      Nat.mul_add_div (by omega), Nat.div_eq_of_lt hroom, add_zero]
  have hlength : c.chunks.length = init.length + 1 := by
    rw [hb.chunks, List.length_append, List.length_singleton]
  have hreserved : Stamped v (chunkColumns init.length) a.stampAt c.stampAt ∨ c = a := by
    rcases reserve_eq_ok hr with ⟨-, rfl, -⟩ | ⟨-, -, -, rfl⟩
    · exact .inr rfl
    · have hlen : init.length = a.chunks.length := by simpa using hlength.symm
      rw [hlen]
      exact .inl (stamped_fresh rfl)
  have hcommit : Stamped v (chunkColumns init.length) c.stampAt (c.commit r v).stampAt := by
    have hlast : init.length = c.chunks.length - 1 := by omega
    rw [hlast]
    exact stamped_modifyChunk_all fun d => Chunk.stamped_all (Chunk.stamps_push d r v)
  rw [hreceiving]
  rcases hreserved with hreserved | rfl
  · have hboth := hreserved.trans hcommit
    rwa [Set.union_self] at hboth
  · exact hcommit

lemma stamped_trim (a : Archetype) (p : Pool) (v : UInt32) :
    Stamped v ∅ a.stampAt (a.trim p).1.stampAt := by
  unfold trim
  split
  next => exact .refl v _
  next c hc =>
    split_ifs
    · exact stamped_prefix (List.dropLast_prefix _) v
    · exact .refl v _

lemma stamped_truncate (a : Archetype) (p : Pool) (v : UInt32) :
    Stamped v ∅ a.stampAt (a.truncate p).1.stampAt := by
  have hpop : Stamped v ∅ a.stampAt (a.modifyLast Chunk.pop).stampAt := by
    have hnone : ∀ d : Chunk, Stamped v ∅ d.stampAt d.pop.stampAt := fun d => .refl v d.stampAt
    refine (stamped_modifyChunk fun d _ => hnone d).congr fun x => ?_
    exact iff_of_false And.right (Set.notMem_empty x)
  have htrim := stamped_trim { a.modifyLast Chunk.pop with count := a.count - 1 } p v
  have hboth := hpop.trans htrim
  rwa [Set.union_self] at hboth

/-- When a row leaves, all columns of its chunk get a new stamp, unless it was the last one. -/
theorem stamped_remove {d : Option Handle} (hi : i < a.count)
    (hr : a.remove i p v = .ok (d, b, q)) :
    Stamped v {x | i + 1 ≠ a.count ∧ x ∈ chunkColumns (i / a.capacity)} a.stampAt b.stampAt := by
  obtain ⟨a', ht, ha'⟩ := remove_eq_ok hr
  have hlast := stamped_truncate a' p v
  rw [ht] at hlast
  rcases ha' with ⟨hend, rfl⟩ | ⟨hend, f, rfl, hf⟩
  · exact hlast.congr fun x => iff_of_false (Set.notMem_empty x) fun hx => hx.1 (by omega)
  · have hcopied : ∀ d : Chunk, Stamped v Set.univ d.stampAt (f d).stampAt :=
      fun d => Chunk.stamped_all (hf d)
    refine ((stamped_modifyChunk_all hcopied).trans hlast).congr fun x => ?_
    have hinner : i + 1 ≠ a.count := by omega
    rw [Set.union_empty]
    exact (and_iff_right hinner).symm

lemma stamped_modifyCell {f : Value → Value} (hm : a.modifyCell j i f v = .ok b) :
    Stamped v {(i / a.capacity, j)} a.stampAt b.stampAt := by
  unfold modifyCell locate at hm
  split_ifs at hm with hi
  · obtain rfl := Except.ok.inj hm
    refine (stamped_modifyChunk fun d _ => Chunk.stamped_one rfl).congr fun x => ?_
    rw [Set.mem_singleton_iff, Prod.ext_iff]
    rfl
  · cases hm

end Archetype

namespace Catalogue
variable {c c' : Catalogue} {a b : Archetype} {id : Nat} {v : UInt32} {J : Set (Nat × Nat)}

/-- The stamps of the columns, by the numbers of the archetype, of the chunk and of the column. -/
def stampAt (c : Catalogue) (x : Nat × Nat × Nat) : Option UInt32 :=
  (c.get? x.1).bind fun a => a.stampAt x.2

lemma stampAt_of_get (ha : c.get? id = some a) (x : Nat × Nat) :
    c.stampAt (id, x) = a.stampAt x := by
  rw [stampAt, ha, Option.bind_some]

lemma stamped_of_kept (h : ∀ i a, c'.get? i = some a → c.get? i = some a) (v : UInt32) :
    Stamped v ∅ c.stampAt c'.stampAt := by
  refine .of_kept fun x u hu => ?_
  obtain ⟨a, ha, hu⟩ := Option.bind_eq_some_iff.mp hu
  exact Option.bind_eq_some_iff.mpr ⟨a, h x.1 a ha, hu⟩

lemma stamped_of_update (hget : c'.get? = Function.update c.get? id (some b))
    (h : Stamped v J (fun x => c.stampAt (id, x)) b.stampAt) :
    Stamped v {x | x.1 = id ∧ x.2 ∈ J} c.stampAt c'.stampAt := by
  rintro ⟨i, x⟩ u hu
  rw [stampAt, hget] at hu
  by_cases hi : i = id
  · subst hi
    rw [Function.update_self, Option.bind_some] at hu
    rcases h x u hu with ⟨hJ, hv⟩ | ⟨hJ, ha⟩
    · exact .inl ⟨⟨rfl, hJ⟩, hv⟩
    · exact .inr ⟨fun hx => hJ hx.2, ha⟩
  · rw [Function.update_of_ne hi] at hu
    exact .inr ⟨fun hx => hi hx.1, hu⟩

end Catalogue

end EntityStore
