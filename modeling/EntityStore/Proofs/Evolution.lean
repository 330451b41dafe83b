import Mathlib
import EntityStore.Proofs.Session

/-!
# How archetypes and the pool evolve

Whatever happens to a store, its archetypes and its pool change in five ways only: an archetype
without entities is added, one in use is reshaped, one without entities is given up, the pool frees
what it keeps, or memory has more or less left for it. A property of both that these five preserve
holds in every session.
-/
namespace EntityStore

open Relation

/-- One change of the archetypes in use and of the pool at version `v`. -/
inductive Evolves (v : UInt32) : Catalogue × Pool → Catalogue × Pool → Prop
  | added {c c' : Catalogue} {p : Pool} {a : Archetype} (ha : c.add a = .ok c')
      (hchunks : a.chunks = []) (hsig : a.signature ≠ []) : Evolves v (c, p) (c', p)
  | reshaped {c : Catalogue} {p q : Pool} {id : Nat} {a b : Archetype} (ha : c.get? id = some a)
      (hx : a.Reshaped v p b q) : Evolves v (c, p) (c.set id b, q)
  | recycled {c : Catalogue} (p : Pool) (id : Nat)
      (he : ∀ a, c.get? id = some a → a.isEmpty = true → a.chunks = []) :
      Evolves v (c, p) (c.recycle id, p)
  | flushed (c : Catalogue) (p : Pool) : Evolves v (c, p) (c, p.flush)
  | supplied (c : Catalogue) (p : Pool) (supply : Option Nat) :
      Evolves v (c, p) (c, { p with supply })

lemma evolves_induction {v : UInt32} {P : Catalogue × Pool → Prop}
    (hstep : ∀ x y, Evolves v x y → P x → P y) {x y : Catalogue × Pool}
    (h : ReflTransGen (Evolves v) x y) (hx : P x) : P y := by
  induction h with
  | refl => exact hx
  | tail _ h ih => exact hstep _ _ h ih

namespace World
variable {w v w' : World} {h : Handle} {id : Nat} {a b : Archetype} {x : Traffic} {f : Fault}

/-- The archetypes in use and the pool. -/
def storage (w : World) : Catalogue × Pool := (w.catalogue, w.pool)

lemma evolves_recycle (hs : w.Sound) (id : Nat) (v : UInt32) :
    Evolves v w.storage (w.recycle id).storage :=
  .recycled w.pool id fun _ ha he => (hs.catalogue.packed _ _ ha).chunks_of_isEmpty he

lemma Opened.evolves (ho : Opened w v id a) :
    ReflTransGen (Evolves w.version) w.storage v.storage := by
  cases ho with
  | found h => exact .refl
  | added h =>
    rw [h.rest]
    exact .single (.added h.add h.chunks h.signature_ne)

lemma Stalled.reshaped {ks : List Kind} (hx : Stalled w w' id a b ks) :
    a.Reshaped w.version w.pool b w'.pool := by
  obtain ⟨q, js, hr, hb⟩ := hx.room
  have habandon := Archetype.reshaped_abandon q.1 js q.2 w.version
  rw [hb] at habandon
  exact (Archetype.reshaped_reserve hr).trans habandon

lemma evolves_set (ha : w.catalogue.get? id = some a)
    (hx : a.Reshaped w.version w.pool b w'.pool) (hc : w'.catalogue = w.catalogue.set id b) :
    Evolves w.version w.storage w'.storage := by
  rw [storage, storage, hc]
  exact .reshaped ha hx

lemma evolves_leave {c : Catalogue} {p q : Pool} {u : UInt32} (ha : c.get? id = some a)
    (hx : a.Reshaped u p b q) (hp : b.Packed) :
    ReflTransGen (Evolves u) (c, p) ((c.set id b).recycle id, q) := by
  refine .tail (.single (.reshaped ha hx)) (.recycled q id fun d hd he => ?_)
  rw [Catalogue.get_set ha, Function.update_self] at hd
  obtain rfl := Option.some.inj hd
  exact hp.chunks_of_isEmpty he

lemma Vacated.evolves {l : Location} {r : Row} {d : Handle} (hx : Vacated w w' h l a b r d) :
    ReflTransGen (Evolves w.version) w.storage w'.storage := by
  rw [storage, storage, hx.catalogue]
  exact evolves_leave hx.found hx.reshaped hx.packed

lemma Transferred.evolves {l : Location} {a' b' : Archetype} {r : Row} {d : Handle}
    (hx : Transferred w w' h l id a a' b b' r d) :
    ReflTransGen (Evolves w.version) w.storage w'.storage := by
  obtain ⟨q, hcame, hleft⟩ := hx.reshaped
  have hsource : (w.catalogue.set id b').get? l.archetype = some a := by
    rw [Catalogue.get_set hx.target, Function.update_of_ne hx.apart, hx.source]
  rw [storage, storage, hx.catalogue]
  exact .head (.reshaped hx.target hcame) (evolves_leave hsource hleft hx.sourcePacked)

lemma Opened.then_evolves (ho : Opened w v id a)
    (h : ReflTransGen (Evolves v.version) v.storage w'.storage) :
    ReflTransGen (Evolves w.version) w.storage w'.storage := by
  rw [ho.kept.version] at h
  exact ho.evolves.trans h

/-- Every change of a store is a run of these. -/
theorem Transition.evolves (hs : w.Sound) (hx : Transition w x w') :
    ReflTransGen (Evolves w.version) w.storage w'.storage := by
  cases hx with
  | refused hr =>
    cases hr with
    | types => exact .refl
    | room ho hf => exact ho.then_evolves (.single (evolves_recycle (ho.sound hs) _ _))
  | stalled ho hx => exact ho.then_evolves (.single (evolves_set hx.found hx.reshaped hx.catalogue))
  | filled ho hx => exact ho.then_evolves (.single (evolves_set hx.found hx.reshaped hx.catalogue))
  | moved hm =>
    cases hm with
    | away ht hx => exact hx.evolves
    | still hl ha hsig => exact .refl
    | across ho hsig hx => exact ho.then_evolves hx.evolves
  | allocated ha => exact .refl
  | freed hl hf => exact .refl
  | registered hr => exact .refl
  | written hx => exact .single (evolves_set hx.found hx.reshaped hx.catalogue)
  | returned k v => exact .refl
  | idle hx =>
    rcases hx.pool with hp | hp
    · rw [storage, storage, hx.catalogue, hp]
    · rw [storage, storage, hx.catalogue, hp]
      exact .single (.flushed _ _)

lemma Refused.version (hr : Refused w f w') : w'.version = w.version := by
  cases hr with
  | types => rfl
  | room ho hf => exact ho.kept.version

lemma Transition.version (hx : Transition w x w') : w'.version = w.version := by
  cases hx with
  | refused hr => exact hr.version
  | stalled ho hx => exact hx.kept.version.trans ho.kept.version
  | filled ho hx => exact hx.kept.version.trans ho.kept.version
  | moved hm => exact hm.kept.version
  | allocated ha => rfl
  | freed hl hf => rfl
  | registered hr => rfl
  | written hx => exact hx.kept.version
  | returned k v => rfl
  | idle hx => exact hx.version

theorem Transitions.version (hx : Transitions w x w') : w'.version = w.version := by
  induction hx with
  | refl w => rfl
  | step hx _ ih => exact ih.trans hx.version

theorem Transitions.evolves (hs : w.Sound) (hx : Transitions w x w') :
    ReflTransGen (Evolves w.version) w.storage w'.storage := by
  induction hx with
  | refl w => exact .refl
  | step hx _ ih =>
    have hrest := ih (hx.sound hs)
    rw [hx.version] at hrest
    exact (hx.evolves hs).trans hrest

end World

namespace Session
variable {s : Session}

/-- Every move that does not advance the version or say what memory has left is a run of changes of
the store. -/
theorem transitions_move (hw : s.world.Sound) (m : Move) :
    m = .bump ∨ (∃ n, m = .memory n) ∨ ∃ x, World.Transitions s.world x (s.move m).world := by
  have hidle : ∀ {w' : World}, World.Idle s.world w' → ∃ x, World.Transitions s.world x w' :=
    fun hx => ⟨0, (World.Transition.idle hx).single⟩
  have hsame : ∃ x, World.Transitions s.world x s.world := ⟨0, .refl _⟩
  cases m with
  | operate op => exact .inr (.inr ⟨_, op.transitions hw⟩)
  | write m => exact .inr (.inr ⟨_, (m.rewrites hw).transitions⟩)
  | register k m =>
    simp only [Session.move]
    cases hr : s.world.registry.register k m with
    | error f => exact .inr (.inr hsame)
    | ok tr => exact .inr (.inr ⟨0, (World.Transition.registered hr).single⟩)
  | bump => exact .inl rfl
  | flush => exact .inr (.inr (hidle ⟨rfl, rfl, rfl, rfl, rfl, rfl, .inr rfl⟩))
  | fuse n => exact .inr (.inr (hidle ⟨rfl, rfl, rfl, rfl, rfl, rfl, .inl rfl⟩))
  | memory n => exact .inr (.inl ⟨n, rfl⟩)
  | newScript => exact .inr (.inr hsame)
  | record i c =>
    simp only [Session.move]
    cases s.scripts[i]? <;> exact .inr (.inr hsame)
  | append i j =>
    simp only [Session.move]
    cases s.scripts[i]? <;> cases s.scripts[j]? <;> (try split_ifs) <;> exact .inr (.inr hsame)
  | discard i =>
    simp only [Session.move]
    cases s.scripts[i]? with
    | none => exact .inr (.inr hsame)
    | some p => exact .inr (.inr ⟨_, transitions_dropAll s.world (Script.held p.commands)⟩)
  | play i =>
    simp only [Session.move]
    cases s.scripts[i]? with
    | none => exact .inr (.inr hsame)
    | some p => exact .inr (.inr ⟨_, Script.transitions hw p.commands []⟩)

theorem Invariant.evolves (hs : s.Invariant) (m : Move) :
    ReflTransGen (Evolves s.world.version) s.world.storage (s.move m).world.storage := by
  rcases transitions_move hs.sound m with rfl | ⟨n, rfl⟩ | ⟨x, hx⟩
  · exact .refl
  · exact .single (.supplied _ _ n)
  · exact hx.evolves hs.sound

/-- What holds of a new store's archetypes and pool, and is preserved as they evolve, holds in every
session. -/
theorem Strained.stored {P : Catalogue × Pool → Prop}
    (hnew : ∀ n hash chunkSize retain supply,
      P (Catalogue.new n hash, { chunkSize, retain, supply }))
    (hstep : ∀ v x y, Evolves v x y → P x → P y) (hs : s.Strained) : P s.world.storage := by
  induction hs with
  | create hw =>
    obtain ⟨_, _, _, _, _, -, rfl⟩ := hw.eq
    exact hnew _ _ _ _ _
  | @move s hs m ih =>
    exact evolves_induction (hstep _) (hs.invariant.evolves m) ih

end Session

lemma Evolves.lends {v : UInt32} {x y : Catalogue × Pool} (h : Evolves v x y)
    (hx : x.2.Lends (x.1.total fun a => a.chunks.length)) :
    y.2.Lends (y.1.total fun a => a.chunks.length) := by
  cases h with
  | added ha hchunks hsig => simpa [Catalogue.total_add _ ha, hchunks] using hx
  | @reshaped c p q id a b ha hab =>
    -- the chunks of the others are those without this archetype's
    have hothers := Catalogue.total_set (fun a => a.chunks.length) ha a.blank
    have hset := Catalogue.total_set (fun a => a.chunks.length) ha b
    have hblank : a.blank.chunks.length = 0 := rfl
    simp only [hblank, add_zero] at hothers hset hx ⊢
    have hchunks : (c.set id b).total (fun a => a.chunks.length) =
        (c.set id a.blank).total (fun a => a.chunks.length) + b.chunks.length := by omega
    rw [← hothers] at hx
    rw [hchunks]
    exact hab.lends _ hx
  | recycled p id he =>
    have htotal := Catalogue.total_recycle (fun a => a.chunks.length)
      (fun a ha hempty => by rw [he a ha hempty]; rfl)
    simpa only [htotal] using hx
  | flushed c p => exact hx.flush
  | supplied c p n => exact ⟨hx.allocated, hx.retained⟩

/-- In every session the pool accounts for every chunk of the archetypes in use. -/
theorem Session.Strained.lends {s : Session} (hs : s.Strained) :
    s.world.pool.Lends (s.world.catalogue.total fun a => a.chunks.length) :=
  hs.stored (P := fun x => x.2.Lends (x.1.total fun a => a.chunks.length))
    (fun _ _ _ _ _ => ⟨rfl, Nat.zero_le _⟩) fun _ _ _ h hx => h.lends hx

end EntityStore
