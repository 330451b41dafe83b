import Mathlib
import EntityStore.Proofs.Archetype

/-!
# What stamps tell about columns

`Traced` compares columns before and after a change. A column whose stamp is none of the versions
of the change has kept its stamp and its cells, but for rows at its end that are gone. Every way of
writing a chunk is traced by the version it stamps with, and an archetype is traced chunk by chunk.
-/
namespace EntityStore

/-- Columns at places of some kind, each with its stamp and its cells. -/
abbrev Columns (ι : Type) := ι → UInt32 → List (Option Value) → Prop

/-- A column that is not stamped with one of the versions was there under the same stamp, with the
same cells and perhaps more behind them. -/
def Traced {ι : Type} (vs : Set UInt32) (S T : Columns ι) : Prop :=
  ∀ i u xs, T i u xs → u ∈ vs ∨ ∃ ys, S i u ys ∧ xs <+: ys

section Traced
variable {ι : Type} {vs us : Set UInt32} {S T U : Columns ι}

lemma Traced.refl (vs : Set UInt32) (S : Columns ι) : Traced vs S S :=
  fun _ _ xs h => .inr ⟨xs, h, List.prefix_rfl⟩

lemma Traced.trans (h : Traced vs S T) (h' : Traced vs T U) : Traced vs S U := by
  intro i u xs hx
  rcases h' i u xs hx with hu | ⟨ys, hy, hxy⟩
  · exact .inl hu
  · rcases h i u ys hy with hu | ⟨zs, hz, hyz⟩
    · exact .inl hu
    · exact .inr ⟨zs, hz, hxy.trans hyz⟩

lemma Traced.mono (h : Traced vs S T) (hsub : vs ⊆ us) : Traced us S T :=
  fun i u xs hx => (h i u xs hx).imp_left fun hu => hsub hu

end Traced

namespace Chunk
variable {c c' : Chunk} {v : UInt32} {vs : Set UInt32} {j : Nat}

def columns (c : Chunk) : Columns Nat := fun j u xs =>
  c.stamps[j]? = some u ∧ c.rows.map (fun r => r.cell j) = xs

lemma traced_of_stamped (h : ∀ u ∈ c'.stamps, u ∈ vs) (S : Columns Nat) : Traced vs S c'.columns :=
  fun _ u _ hx => .inl (h u (List.mem_of_getElem? hx.1))

lemma traced_all (hstamps : c'.stamps = c.stamps.map fun _ => v) (hv : v ∈ vs) :
    Traced vs c.columns c'.columns :=
  traced_of_stamped (by simp [hstamps, hv]) _

lemma traced_push (r : Row) (hv : v ∈ vs) : Traced vs c.columns (c.push r v).columns :=
  traced_all (stamps_push c r v) hv

lemma traced_fresh (n : Nat) (hv : v ∈ vs) (S : Columns Nat) : Traced vs S (fresh n v).columns := by
  refine traced_of_stamped (fun u hu => ?_) S
  rwa [List.eq_of_mem_replicate hu]

lemma traced_pop (c : Chunk) (vs : Set UInt32) : Traced vs c.columns c.pop.columns := by
  rintro i u xs ⟨hu, rfl⟩
  refine .inr ⟨_, ⟨hu, rfl⟩, ?_⟩
  rw [rows_pop, List.map_dropLast]
  exact List.dropLast_prefix _

/-- A write stamps its column and leaves the cells of the other columns alone. -/
lemma traced_write (hstamps : c'.stamps = c.stamps.set j v)
    (hcells : ∀ i ≠ j, c'.rows.map (fun r => r.cell i) = c.rows.map fun r => r.cell i)
    (hv : v ∈ vs) : Traced vs c.columns c'.columns := by
  rintro i u xs ⟨hu, rfl⟩
  rw [hstamps] at hu
  by_cases hij : i = j
  · subst hij
    have hlt := (List.getElem?_eq_some_iff.mp hu).1
    rw [List.getElem?_set_self (by simpa using hlt)] at hu
    exact .inl (Option.some.inj hu ▸ hv)
  · rw [List.getElem?_set_ne (Ne.symm hij)] at hu
    exact .inr ⟨_, ⟨hu, rfl⟩, by rw [hcells i hij]⟩

lemma traced_stampMany (js : List Nat) (hv : v ∈ vs) :
    Traced vs c.columns (c.stampMany v js).columns := by
  induction js generalizing c with
  | nil => exact .refl vs _
  | cons j js ih =>
    have hfirst : Traced vs c.columns (c.stamp v j).columns :=
      traced_write rfl (fun _ _ => rfl) hv
    exact hfirst.trans ih

lemma traced_modifyCell (p : Nat) (f : Value → Value) (hv : v ∈ vs) :
    Traced vs c.columns (c.modifyCell p j f v).columns :=
  traced_write rfl (fun _ hi => Archetype.map_modify _ fun r _ => Row.cell_modify_of_ne r f hi) hv

lemma traced_editColumn (e : Edit) (hv : v ∈ vs) :
    Traced vs c.columns (c.editColumn j e v).columns := by
  refine traced_write rfl (fun i hi => ?_) hv
  apply List.ext_getElem?
  intro p
  simp only [editColumn, List.getElem?_map, List.getElem?_mapIdx, Option.map_map]
  congr 1
  funext r
  exact Row.cell_modify_of_ne r _ hi

end Chunk

namespace Archetype
variable {a b : Archetype} {v : UInt32} {vs : Set UInt32} {k n : Nat}

def columns (a : Archetype) : Columns (Nat × Nat) := fun kj u xs =>
  ∃ c, a.chunks[kj.1]? = some c ∧ c.columns kj.2 u xs

lemma traced_of_chunks (h : ∀ k d, b.chunks[k]? = some d →
    Traced vs (fun j u xs => a.columns (k, j) u xs) d.columns) : Traced vs a.columns b.columns := by
  rintro ⟨k, j⟩ u xs ⟨d, hd, hx⟩
  exact h k d hd j u xs hx

lemma traced_prefix (h : b.chunks <+: a.chunks) (vs : Set UInt32) :
    Traced vs a.columns b.columns := by
  obtain ⟨rest, hrest⟩ := h
  rintro ⟨k, j⟩ u xs ⟨d, hd, hx⟩
  have hold : a.chunks[k]? = some d := by
    rw [← hrest, List.getElem?_append_left (List.getElem?_eq_some_iff.mp hd).1, hd]
  exact .inr ⟨xs, ⟨d, hold, hx⟩, List.prefix_rfl⟩

lemma traced_modifyChunk {f : Chunk → Chunk}
    (h : ∀ d, a.chunks[k]? = some d → Traced vs d.columns (f d).columns) :
    Traced vs a.columns (a.modifyChunk k f).columns := by
  refine traced_of_chunks fun i d hd => ?_
  rw [modifyChunk, List.getElem?_modify] at hd
  obtain ⟨c, hc, rfl⟩ := Option.map_eq_some_iff.mp hd
  have hcolumns : ∀ j u xs, c.columns j u xs → a.columns (i, j) u xs :=
    fun j u xs hx => ⟨c, hc, hx⟩
  by_cases hi : k = i
  · subst hi
    rw [if_pos rfl]
    intro j u xs hx
    rcases h c hc j u xs hx with hu | ⟨ys, hy, hxy⟩
    · exact .inl hu
    · exact .inr ⟨ys, hcolumns j u ys hy, hxy⟩
  · rw [if_neg hi]
    exact fun j u xs hx => .inr ⟨xs, hcolumns j u xs hx, List.prefix_rfl⟩

lemma traced_fresh (hb : b.chunks = a.chunks ++ [Chunk.fresh n v]) (hv : v ∈ vs) :
    Traced vs a.columns b.columns := by
  refine traced_of_chunks fun k d hd => ?_
  rw [hb] at hd
  by_cases hk : k < a.chunks.length
  · rw [List.getElem?_append_left hk] at hd
    exact fun j u xs hx => .inr ⟨xs, ⟨d, hd, hx⟩, List.prefix_rfl⟩
  · rw [List.getElem?_append_right (by omega)] at hd
    rw [List.mem_singleton.mp (List.mem_of_getElem? hd)]
    exact Chunk.traced_fresh n hv _

end Archetype

end EntityStore
