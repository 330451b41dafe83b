import Mathlib
import EntityStore.Proofs.Evolution
import EntityStore.Proofs.Issuing

/-!
# Every chunk buffer is accounted for

The buffers in being are those of the chunks in use and those that the pool keeps, and it never
keeps more than it was told to. A store without entities has no chunks, and a store that is closed
gives all of them back: what is left then is what the pool keeps, which a flush frees.
-/
namespace EntityStore

namespace Pool
variable {p : Pool} {m n : Nat}

lemma Lends.giveMany (h : p.Lends (n + m)) : (p.giveMany m).Lends n := by
  induction m generalizing p with
  | zero => exact h
  | succ m ih => exact ih h.give

lemma retain_giveMany (p : Pool) (m : Nat) : (p.giveMany m).retain = p.retain := by
  induction m generalizing p with
  | zero => rfl
  | succ m ih => rw [Pool.giveMany, ih, (akin_give p).retain]

/-- No buffers are out, and those that are kept are not more than `limit`. A flush frees them. -/
structure Resting (p : Pool) (limit : Nat) : Prop where
  allocated : p.allocated = p.retained
  retained : p.retained ≤ limit
  flushed : p.flush.allocated = 0 ∧ p.flush.retained = 0

lemma Lends.resting (h : p.Lends 0) : p.Resting p.retain :=
  ⟨h.allocated, h.retained, by simp [Pool.flush, h.allocated], rfl⟩

end Pool

lemma Pool.Lends.foldl {p : Pool} {n : Nat} {as : List Archetype}
    (h : p.Lends (n + (as.map fun a => a.chunks.length).sum)) :
    (as.foldl (fun p a => p.giveMany a.chunks.length) p).Lends n := by
  induction as generalizing p with
  | nil => exact h
  | cons a as ih =>
    refine ih (Pool.Lends.giveMany (m := a.chunks.length) ?_)
    rwa [List.map_cons, List.sum_cons, Nat.add_comm a.chunks.length, ← Nat.add_assoc] at h

lemma Pool.retain_foldl (p : Pool) (as : List Archetype) :
    (as.foldl (fun p a => p.giveMany a.chunks.length) p).retain = p.retain := by
  induction as generalizing p with
  | nil => rfl
  | cons a as ih => exact (ih _).trans (p.retain_giveMany _)

namespace World
variable {w : World}

/-- A store that is closed gives back what it got. -/
theorem resting_close (h : w.pool.Lends (w.catalogue.total fun a => a.chunks.length)) :
    w.close.2.Resting w.pool.retain := by
  have hnone : w.close.2.Lends 0 := Pool.Lends.foldl (by rwa [Nat.zero_add])
  have hretain : w.close.2.retain = w.pool.retain := Pool.retain_foldl ..
  rw [← hretain]
  exact hnone.resting

lemma Sound.total_chunks (hs : w.Sound) (hnone : ∀ h, w.handles.isValid h = false) :
    (w.catalogue.total fun a => a.chunks.length) = 0 := by
  refine List.sum_eq_zero fun n hn => ?_
  obtain ⟨a, hmem, rfl⟩ := List.mem_map.mp hn
  obtain ⟨id, ha⟩ := Catalogue.mem_archetypes.mp hmem
  rw [List.length_eq_zero_iff, ← (hs.catalogue.packed id a ha).rows_eq_nil,
    List.eq_nil_iff_forall_not_mem]
  intro r hr
  obtain ⟨i, hi⟩ := List.mem_iff_getElem?.mp hr
  have hvalid := HandleTable.isValid_iff.mpr ⟨_, hs.location ha hi⟩
  rw [hnone] at hvalid
  cases hvalid

end World

lemma Evolves.retain {v : UInt32} {x y : Catalogue × Pool} (h : Evolves v x y) :
    y.2.retain = x.2.retain := by
  cases h with
  | added => rfl
  | reshaped _ hx => exact hx.akin.retain
  | recycled => rfl
  | flushed => rfl
  | supplied => rfl

namespace Session
variable {s : Session}

lemma Invariant.retain_run (hs : s.Invariant) (ms : List Move) :
    (s.run ms).world.pool.retain = s.world.pool.retain := by
  induction ms generalizing s with
  | nil => rfl
  | cons m ms ih =>
    refine (ih (hs.move m)).trans ?_
    exact evolves_induction (P := fun x => x.2.retain = s.world.pool.retain)
      (fun _ _ h hx => h.retain.trans hx) (hs.evolves m) rfl

lemma Strained.entityCount_eq_zero (hs : s.Strained) :
    s.world.entityCount = 0 ↔ ∀ h, s.world.handles.isValid h = false := by
  obtain ⟨es, hes⟩ := hs.lived
  have hlive := hes.runs.chronicle.live
  rw [World.entityCount, ← Nat.cast_eq_zero (R := ℕ∞), ← hlive, Set.encard_eq_zero,
    Set.eq_empty_iff_forall_notMem]
  exact forall_congr' fun h => by rw [Set.mem_ofPred_eq, Bool.not_eq_true]

/-- However a store is tuned and whatever is done with it: the buffers in being are the chunks of
the archetypes in use and those the pool keeps, of which there are never more than the settings
allow. Once all entities are destroyed, and also once the store is closed, those that are kept are
all there are, and a flush frees them. -/
theorem buffers_are_accounted_for {name : String} {maxTypes : Nat} {settings : Settings}
    {supply : Option Nat} {hash : List TypeCode → Nat} {w : World} (ht : settings.Tuned)
    (hw : World.create (Registry.new name maxTypes) settings supply hash = .ok w)
    (ms : List Move) :
    let world := (run { world := w } ms).world
    world.pool.allocated =
        (world.catalogue.archetypes.map fun a => a.chunks.length).sum + world.pool.retained ∧
      world.pool.retained ≤ settings.retained ∧
      ((∀ h, world.handles.isValid h = false) → world.pool.Resting settings.retained) ∧
      world.close.2.Resting settings.retained := by
  intro world
  have hnew : w.New := .create ht hw
  have hcreate := invariant_create hnew
  have hreach : (run { world := w } ms).Strained := (Strained.create hnew).run ms
  have hlends := hreach.lends
  have hretain : world.pool.retain = settings.retained := by
    rw [hcreate.retain_run ms, World.create_eq_ok hw]
  rw [← hretain]
  refine ⟨hlends.allocated.trans (Nat.add_comm _ _), hlends.retained, fun hnone => ?_,
    World.resting_close hlends⟩
  rw [hreach.invariant.sound.total_chunks hnone] at hlends
  exact hlends.resting

def keeping : Settings := (({} : Settings).withChunkSize 256).withRetained 1

def crowd : List Move :=
  .register note .none :: List.replicate 6 (.operate (.createWith [⟨1⟩]))

def dispersal : List Move := (List.range 6).map fun i => .operate (.destroy ⟨i, 1⟩)

/-- Two chunks come into use, one of which is kept in the end. -/
theorem buffers_are_accounted_for_sample : ∃ w,
    World.create (Registry.new "Handle") keeping = .ok w ∧
    (run { world := w } crowd).world.pool.allocated = 2 ∧
    (run { world := w } crowd).world.pool.retained = 0 ∧
    ((run { world := w } crowd).world.catalogue.archetypes.map fun a => a.chunks.length).sum = 2 ∧
    (run { world := w } crowd).world.close.2.Resting 1 ∧
    (run { world := w } (crowd ++ dispersal)).world.pool.retained = 1 ∧
    (run { world := w } (crowd ++ dispersal)).world.pool.Resting 1 := by
  have htuned : keeping.Tuned := .retained (.chunkSize .standard 256 (by decide)) 1
  obtain ⟨w, hw⟩ : ∃ w, World.create (Registry.new "Handle") keeping = .ok w := ⟨_, rfl⟩
  have hallocated : (run { world := w } crowd).world.pool.allocated = 2 := by
    rw [World.create_eq_ok hw]
    decide +kernel
  have hretained : (run { world := w } crowd).world.pool.retained = 0 := by
    rw [World.create_eq_ok hw]
    decide +kernel
  have hempty : (run { world := w } (crowd ++ dispersal)).world.entityCount = 0 := by
    rw [World.create_eq_ok hw]
    decide +kernel
  have hkept : (run { world := w } (crowd ++ dispersal)).world.pool.retained = 1 := by
    rw [World.create_eq_ok hw]
    decide +kernel
  have hnone := (((Strained.create (.create htuned hw)).run _).entityCount_eq_zero).mp hempty
  obtain ⟨hsum, -, -, hclose⟩ := buffers_are_accounted_for htuned hw crowd
  obtain ⟨-, -, hrest, -⟩ := buffers_are_accounted_for htuned hw (crowd ++ dispersal)
  rw [hallocated, hretained, add_zero] at hsum
  exact ⟨w, hw, hallocated, hretained, hsum.symm, hclose, hkept, hrest hnone⟩

end Session

end EntityStore
