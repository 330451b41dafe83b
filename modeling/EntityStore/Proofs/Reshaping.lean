import Mathlib
import EntityStore.Proofs.Tracing

/-!
# Archetypes and the pool

Every operation on the rows of an archetype reshapes it: it stays the same archetype, its columns
are traced by the version of the operation, and each chunk it has more or less is a buffer that the
pool has lent or got back.
-/
namespace EntityStore

namespace Pool
variable {p q : Pool} {n : Nat}

/-- Besides the buffers it keeps, of which there are not too many, the pool has `n` buffers out. -/
structure Lends (p : Pool) (n : Nat) : Prop where
  allocated : p.allocated = p.retained + n
  retained : p.retained ≤ p.retain

lemma Lends.take (h : p.Lends n) (ht : p.take = .ok q) : q.Lends (n + 1) := by
  obtain ⟨hallocated, hretained⟩ := h
  rcases take_eq_ok ht with ⟨hpos, rfl⟩ | ⟨-, -, rfl⟩
  · exact ⟨by simp only; omega, by simp only; omega⟩
  · exact ⟨by simp only; omega, hretained⟩

lemma Lends.give (h : p.Lends (n + 1)) : p.give.Lends n := by
  obtain ⟨hallocated, hretained⟩ := h
  unfold Pool.give
  split_ifs with hroom
  · exact ⟨by simp only; omega, hroom⟩
  · exact ⟨by simp only; omega, hretained⟩

lemma Lends.flush (h : p.Lends n) : p.flush.Lends n :=
  ⟨by have := h.allocated; simp only [Pool.flush]; omega, Nat.zero_le _⟩

/-- Memory gives every buffer that is asked for, or none. -/
def Steady (p : Pool) : Prop := p.supply = none ∨ p.supply = some 0

/-- What a pool was made with stays, and so does what memory has left if that is steady. -/
structure Akin (p q : Pool) : Prop where
  chunkSize : q.chunkSize = p.chunkSize
  retain : q.retain = p.retain
  supply : p.Steady → q.supply = p.supply

lemma Akin.refl (p : Pool) : p.Akin p := ⟨rfl, rfl, fun _ => rfl⟩

lemma Akin.steady (h : p.Akin q) (hp : p.Steady) : q.Steady := by
  unfold Steady
  rwa [h.supply hp]

lemma Akin.trans {r : Pool} (h : p.Akin q) (h' : q.Akin r) : p.Akin r :=
  ⟨h'.chunkSize.trans h.chunkSize, h'.retain.trans h.retain,
    fun hp => (h'.supply (h.steady hp)).trans (h.supply hp)⟩

lemma akin_give (p : Pool) : p.Akin p.give := by
  unfold Pool.give
  split_ifs <;> exact ⟨rfl, rfl, fun _ => rfl⟩

lemma akin_flush (p : Pool) : p.Akin p.flush := ⟨rfl, rfl, fun _ => rfl⟩

lemma akin_take (h : p.take = .ok q) : p.Akin q := by
  rcases take_eq_ok h with ⟨-, rfl⟩ | ⟨-, hleft, rfl⟩
  · exact ⟨rfl, rfl, fun _ => rfl⟩
  · exact ⟨rfl, rfl, fun hp => by simp [hp.resolve_right hleft]⟩

end Pool

namespace Archetype

/-- What becomes of an archetype and of the pool when rows come, go or change at version `v`. -/
structure Reshaped (v : UInt32) (a : Archetype) (p : Pool) (b : Archetype) (q : Pool) : Prop where
  blank : b.blank = a.blank
  traced : Traced {v} a.columns b.columns
  limited : a.chunks.length ≤ a.maxChunks → b.chunks.length ≤ b.maxChunks
  lends : ∀ n, p.Lends (n + a.chunks.length) → q.Lends (n + b.chunks.length)
  akin : p.Akin q

variable {a b c : Archetype} {p q r : Pool} {v : UInt32} {i k : Nat}

lemma Reshaped.refl (v : UInt32) (a : Archetype) (p : Pool) : a.Reshaped v p a p :=
  ⟨rfl, .refl _ _, fun hn => hn, fun _ hn => hn, .refl p⟩

lemma Reshaped.trans (h : a.Reshaped v p b q) (h' : b.Reshaped v q c r) : a.Reshaped v p c r :=
  ⟨h'.blank.trans h.blank, h.traced.trans h'.traced, fun hn => h'.limited (h.limited hn),
    fun n hn => h'.lends n (h.lends n hn), h.akin.trans h'.akin⟩

/-- Writing a chunk that is there. -/
lemma reshaped_modifyChunk {f : Chunk → Chunk}
    (h : ∀ d, a.chunks[k]? = some d → Traced {v} d.columns (f d).columns) (p : Pool) :
    a.Reshaped v p (a.modifyChunk k f) p :=
  ⟨rfl, traced_modifyChunk h, fun hn => by rwa [modifyChunk, List.length_modify],
    fun n hn => by rwa [modifyChunk, List.length_modify], .refl p⟩

lemma reshaped_reserve (hr : a.reserve p v = .ok (b, q)) : a.Reshaped v p b q := by
  rcases reserve_eq_ok hr with ⟨-, rfl, rfl⟩ | ⟨-, hlt, ht, rfl⟩
  · exact .refl v b q
  · refine ⟨rfl, traced_fresh rfl rfl, fun _ => ?_, fun n hn => ?_, Pool.akin_take ht⟩
    · rw [List.length_append]
      exact hlt
    · rw [List.length_append, ← Nat.add_assoc]
      exact hn.take ht

lemma reshaped_commit (a : Archetype) (row : Row) (v : UInt32) (p : Pool) :
    a.Reshaped v p (a.commit row v) p := by
  have h : a.Reshaped v p (a.modifyLast (·.push row v)) p :=
    reshaped_modifyChunk (fun _ _ => Chunk.traced_push row rfl) p
  exact ⟨h.blank, h.traced, h.limited, h.lends, .refl p⟩

/-- A row has been put behind the others, in a place that was reserved for it. -/
def Appended (v : UInt32) (a : Archetype) (p : Pool) (row : Row) (b : Archetype) (q : Pool) :
    Prop :=
  ∃ c, a.reserve p v = .ok (c, q) ∧ b = c.commit row v

lemma Appended.reshaped {row : Row} (h : a.Appended v p row b q) : a.Reshaped v p b q := by
  obtain ⟨c, hr, rfl⟩ := h
  exact (reshaped_reserve hr).trans (reshaped_commit c row v q)

lemma reshaped_trim (a : Archetype) (p : Pool) (v : UInt32) :
    a.Reshaped v p (a.trim p).1 (a.trim p).2 := by
  unfold trim
  split
  next => exact .refl v a p
  next c hc =>
    split_ifs
    · refine ⟨rfl, traced_prefix (List.dropLast_prefix _) _, fun hn => ?_, fun n hn => ?_,
        Pool.akin_give p⟩
      · rw [List.length_dropLast]
        exact (Nat.sub_le _ _).trans hn
      have hpos : 0 < a.chunks.length := List.length_pos_of_mem (List.mem_of_getLast? hc)
      refine Pool.Lends.give ?_
      rwa [List.length_dropLast, Nat.add_assoc, Nat.sub_add_cancel hpos]
    · exact .refl v a p

lemma reshaped_abandon (a : Archetype) (js : List Nat) (p : Pool) (v : UInt32) :
    a.Reshaped v p (a.abandon js p v).1 (a.abandon js p v).2 :=
  (reshaped_modifyChunk (fun _ _ => Chunk.traced_stampMany js rfl) p).trans (reshaped_trim _ p v)

lemma reshaped_truncate (a : Archetype) (p : Pool) (v : UInt32) :
    a.Reshaped v p (a.truncate p).1 (a.truncate p).2 := by
  have h : a.Reshaped v p (a.modifyLast Chunk.pop) p :=
    reshaped_modifyChunk (fun c _ => Chunk.traced_pop c _) p
  have hcount : a.Reshaped v p { a.modifyLast Chunk.pop with count := a.count - 1 } p :=
    ⟨h.blank, h.traced, h.limited, h.lends, .refl p⟩
  exact hcount.trans (reshaped_trim _ p v)

lemma reshaped_remove {d : Option Handle} (hr : a.remove i p v = .ok (d, b, q)) :
    a.Reshaped v p b q := by
  obtain ⟨a', ht, ha'⟩ := remove_eq_ok hr
  have hlast := reshaped_truncate a' p v
  rw [ht] at hlast
  rcases ha' with ⟨-, rfl⟩ | ⟨-, f, rfl, hf⟩
  · exact hlast
  · exact (reshaped_modifyChunk (fun d _ => Chunk.traced_all (hf d) rfl) p).trans hlast

lemma reshaped_modifyCell {j : Nat} {f : Value → Value} (hm : a.modifyCell j i f v = .ok b)
    (p : Pool) : a.Reshaped v p b p := by
  unfold modifyCell locate at hm
  split_ifs at hm with hi
  · obtain rfl := Except.ok.inj hm
    exact reshaped_modifyChunk (fun _ _ => Chunk.traced_modifyCell _ f rfl) p
  · cases hm

end Archetype

end EntityStore
