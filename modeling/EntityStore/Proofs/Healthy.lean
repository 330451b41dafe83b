import Mathlib
import EntityStore.Proofs.Issuing
import EntityStore.Proofs.RowAccesses
import EntityStore.Proofs.Unwinding

/-!
# Healthy stores

A healthy store is consistent, its table of handles has come about by calls, and no registered kind
is too strict for the alignment of a column. No operation breaks any of that, whatever it is called
with and however it ends, and neither does memory that runs out.
-/
namespace EntityStore

open Relation

namespace Registry
variable {r r' : Registry} {k : Kind} {m : Markers} {t : TypeCode}

/-- Columns can align the values of every registered kind. -/
def Aligned (r : Registry) : Prop := ∀ e ∈ r.entries, e.kind.align ≤ columnAlign

lemma aligned_new (name : String) (maxTypes : Nat) : (new name maxTypes).Aligned := by
  intro e he
  obtain rfl : e = ⟨.entity, .handle name⟩ := by simpa [new] using he
  exact (by decide : 4 ≤ 64)

lemma Aligned.register (h : r.Aligned) (hr : r.register k m = .ok (t, r')) : r'.Aligned := by
  rcases register_eq_ok.mp hr with ⟨-, rfl⟩ | ⟨-, -, halign, -, -, rfl⟩
  · exact h
  · intro e he
    rcases Array.mem_push.mp he with he | rfl
    · exact h e he
    · exact halign

end Registry

lemma Settings.Tuned.headerSize_le {s : Settings} (hs : s.Tuned) :
    Settings.headerSize ≤ s.chunkSize := by
  induction hs with
  | standard => decide
  | @chunkSize s _ n _ ih =>
    have hle := Settings.le_alignUp (max n (Settings.headerSize + 64))
    have hmax := le_max_right n (Settings.headerSize + 64)
    simp only [Settings.withChunkSize]
    omega
  | maxTypes _ n ih => exact ih
  | maxChunks _ n ih => exact ih
  | retained _ n ih => exact ih
  | indexMin _ n _ ih => exact ih

namespace World
variable {w v w' : World} {h : Handle} {id : Nat} {a b : Archetype} {x : Traffic}

/-- The archetypes in use are in order, and so are the pool and the registry, wherever the entities
are. -/
structure Stocked (w : World) : Prop where
  catalogue : w.catalogue.Sound w.registry w.settings
  tidy : w.catalogue.Tidy
  lends : w.pool.Lends (w.catalogue.total fun a => a.chunks.length)
  aligned : w.registry.Aligned

namespace Stocked

lemma columns_ne_nil (hw : w.Stocked) (ha : w.catalogue.get? id = some a) :
    a.layout.columns ≠ [] := by
  obtain ⟨first, rest, hcols, -⟩ := (hw.catalogue.drafted id a ha).columns
  rw [hcols]
  exact List.cons_ne_nil _ _

lemma fits (hw : w.Stocked) (ha : w.catalogue.get? id = some a) :
    a.layout.Fits w.settings.bufferSize where
  required := (hw.catalogue.drafted id a ha).required_le
  aligned k hk := by
    obtain ⟨first, rest, hcols, hfirst, hrest⟩ := (hw.catalogue.drafted id a ha).columns
    have hknown : ∀ c ∈ a.layout.columns, w.registry.registration c.code = .ok c := by
      rw [hcols, List.forall_mem_cons]
      refine ⟨?_, fun c hc => Registry.registration_of_mem hrest hc⟩
      rwa [Registry.code_of_registration hfirst]
    obtain ⟨c, hc, rfl⟩ := List.mem_map.mp hk
    have hentry := (Registry.registration_eq_ok.mp (hknown c hc)).1
    exact hw.aligned c (Array.mem_of_getElem? hentry)

lemma lends_chunks (hw : w.Stocked) (ha : w.catalogue.get? id = some a) :
    ∃ n, w.pool.Lends (n + a.chunks.length) := by
  have hlends := hw.lends
  have hle : a.chunks.length ≤ w.catalogue.total fun a => a.chunks.length :=
    List.single_le_sum (fun _ _ => Nat.zero_le _) _
      (List.mem_map_of_mem (Catalogue.mem_archetypes.mpr ⟨id, ha⟩))
  exact ⟨_, by rwa [Nat.sub_add_cancel hle]⟩

lemma evolve (hw : w.Stocked) {u : UInt32} (hx : Evolves u w.storage v.storage)
    (hc : v.catalogue.Sound v.registry v.settings) (hr : v.registry = w.registry) :
    v.Stocked :=
  ⟨hc, hx.tidy hw.tidy, hx.lends hw.lends, hr ▸ hw.aligned⟩

lemma reshape (hw : w.Stocked) {u : UInt32} (ha : w.catalogue.get? id = some a) (hb : b.Packed)
    (hx : a.Reshaped u w.pool b v.pool) (hc : v.catalogue = w.catalogue.set id b)
    (hr : v.registry = w.registry) (hset : v.settings = w.settings) : v.Stocked := by
  refine hw.evolve (u := u) ?_ ?_ hr
  · rw [storage, storage, hc]
    exact .reshaped ha hx
  · rw [hc, hr, hset]
    exact hw.catalogue.set ha hx.blank hb

end Stocked

structure Healthy (w : World) : Prop where
  consistent : w.Consistent
  aligned : w.registry.Aligned
  tuned : w.settings.Tuned
  issued : ∃ es, HandleTable.Runs {} es w.handles

lemma Healthy.sound (hw : w.Healthy) : w.Sound := hw.consistent.sound

lemma Healthy.stocked (hw : w.Healthy) : w.Stocked :=
  ⟨hw.sound.catalogue, hw.consistent.tidy, hw.consistent.lends, hw.aligned⟩

lemma Healthy.chronicle (hw : w.Healthy) : ∃ es, HandleTable.Chronicle w.handles es := by
  obtain ⟨es, hes⟩ := hw.issued
  exact ⟨es, hes.chronicle⟩

lemma Consistent.evolves (hw : w.Consistent) (hs : v.Sound) {u : UInt32}
    (hx : ReflTransGen (Evolves u) w.storage v.storage) : v.Consistent :=
  ⟨hs, evolves_induction (P := fun x => x.1.Tidy) (fun _ _ h hx => h.tidy hx) hx hw.tidy,
    evolves_induction (P := fun x => x.2.Lends (x.1.total fun a => a.chunks.length))
      (fun _ _ h hx => h.lends hx) hx hw.lends⟩

lemma Refused.kept {f : Fault} (hr : Refused w f w') : Kept w w' := by
  cases hr with
  | types => exact .refl w
  | room ho hf =>
    have hk := ho.kept
    exact ⟨hk.registry, hk.settings, hk.version, hk.pool⟩

/-- Changes of the store keep the settings, and only what may be registered is. -/
lemma Transition.aligned (hx : Transition w x w') (hw : w.registry.Aligned) :
    w'.registry.Aligned ∧ w'.settings = w.settings := by
  cases hx with
  | refused hr => exact ⟨hr.kept.registry ▸ hw, hr.kept.settings⟩
  | stalled ho hx =>
    have hk := ho.kept.trans hx.kept
    exact ⟨hk.registry ▸ hw, hk.settings⟩
  | filled ho hx =>
    have hk := ho.kept.trans hx.kept
    exact ⟨hk.registry ▸ hw, hk.settings⟩
  | moved hm => exact ⟨hm.kept.registry ▸ hw, hm.kept.settings⟩
  | registered hr => exact ⟨hw.register hr, rfl⟩
  | written hx => exact ⟨hx.kept.registry ▸ hw, hx.kept.settings⟩
  | idle hx => exact ⟨hx.registry ▸ hw, hx.settings⟩
  | allocated | freed | returned => exact ⟨hw, rfl⟩

lemma Transitions.aligned (hx : Transitions w x w') (hw : w.registry.Aligned) :
    w'.registry.Aligned ∧ w'.settings = w.settings := by
  induction hx with
  | refl => exact ⟨hw, rfl⟩
  | step hx _ ih =>
    obtain ⟨hv, hsettings⟩ := hx.aligned hw
    obtain ⟨hw', hsettings'⟩ := ih hv
    exact ⟨hw', hsettings'.trans hsettings⟩

/-- No run of changes breaks a store. -/
theorem Healthy.transitions (hw : w.Healthy) (hx : Transitions w x v)
    {es : List HandleTable.Event} (hr : HandleTable.Runs w.handles es v.handles) : v.Healthy := by
  obtain ⟨haligned, hsettings⟩ := hx.aligned hw.aligned
  obtain ⟨fs, hfs⟩ := hw.issued
  exact ⟨hw.consistent.evolves (hx.sound hw.sound) (hx.evolves hw.sound), haligned,
    hsettings ▸ hw.tuned, _, hfs.trans hr⟩

lemma Healthy.opened (hw : w.Healthy) (ho : Opened w v id a) : v.Healthy :=
  ⟨hw.consistent.evolves (ho.sound hw.sound) ho.evolves, ho.registry ▸ hw.aligned,
    ho.kept.settings ▸ hw.tuned, ho.handles ▸ hw.issued⟩

lemma Healthy.allocated {handles : HandleTable} (hw : w.Healthy)
    (ha : w.handles.allocate = .ok (h, handles)) : Healthy { w with handles } :=
  hw.transitions (Transition.allocated ha).single (.allocated .refl ha)

lemma Healthy.registered {registry : Registry} {k : Kind} {m : Markers} {t : TypeCode}
    (hw : w.Healthy) (hr : w.registry.register k m = .ok (t, registry)) :
    Healthy { w with registry } :=
  hw.transitions (Transition.registered hr).single .refl

lemma Healthy.operate (hw : w.Healthy) (op : Operation) : (op.run w).Healthy :=
  hw.transitions (op.transitions hw.sound) (op.runs w)

lemma Healthy.command (hw : w.Healthy) (made : List Handle) (c : Command) :
    (after (c.run made w)).Healthy := by
  cases ho : c.operation made with
  | error f =>
    rw [Command.run_unresolved ho]
    exact hw.transitions (transitions_dropAll w c.held.toList) .refl
  | ok op =>
    rw [(Command.run_operation ho w).1]
    exact hw.operate op

lemma Healthy.bump (hw : w.Healthy) : w.bump.2.Healthy :=
  ⟨⟨⟨hw.sound.registry, hw.sound.chunks, hw.sound.catalogue, hw.sound.placed⟩,
    hw.consistent.tidy, hw.consistent.lends⟩, hw.aligned, hw.tuned, hw.issued⟩

lemma Healthy.supplied (hw : w.Healthy) (supply : Option Nat) :
    Healthy { w with pool := { w.pool with supply } } :=
  ⟨⟨⟨hw.sound.registry, hw.sound.chunks, hw.sound.catalogue, hw.sound.placed⟩,
    hw.consistent.tidy, hw.consistent.lends.allocated, hw.consistent.lends.retained⟩,
    hw.aligned, hw.tuned, hw.issued⟩

lemma healthy_create {w : World} (hw : w.New) : w.Healthy := by
  have hs := hw.sound
  obtain ⟨name, maxTypes, _, _, _, ht, rfl⟩ := hw.eq
  exact ⟨⟨hs, Catalogue.tidy_new _ _, rfl, Nat.zero_le _⟩, Registry.aligned_new _ _, ht, [], .refl⟩

end World

namespace Session
variable {s : Session}

lemma healthy_move (hw : s.world.Healthy) (m : Move) : (s.move m).world.Healthy := by
  rcases transitions_move hw.sound m with rfl | ⟨n, rfl⟩ | ⟨x, hx⟩
  · exact hw.bump
  · exact hw.supplied n
  · exact hw.transitions hx (runs_move hw.sound m)

theorem Strained.healthy (hs : s.Strained) : s.world.Healthy := by
  induction hs with
  | create hw => exact World.healthy_create hw
  | move _ m ih => exact healthy_move ih m

end Session

end EntityStore
