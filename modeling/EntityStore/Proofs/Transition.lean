import Mathlib
import EntityStore.Proofs.Moves

/-!
# The ways in which a store changes

`Transition` lists every change that an operation is made of. What holds of each change holds of
every run of changes: soundness, the balance of owned values, and, where memory never had a chunk,
that no archetypes are in use.
-/
namespace EntityStore.World

variable {w v w' : World} {h : Handle} {id : Nat} {a b : Archetype} {x y : Traffic}

/-- Components of one archetype were written, and no handle was. -/
structure Written (w w' : World) (id : Nat) (a b : Archetype) (x : Traffic) : Prop where
  found : w.catalogue.get? id = some a
  packed : b.Packed
  blank : b.blank = a.blank
  roster : b.rows.map Row.handle = a.rows.map Row.handle
  catalogue : w'.catalogue = w.catalogue.set id b
  handles : w'.handles = w.handles
  reshaped : a.Reshaped w.version w.pool b w'.pool
  kept : Kept w w'
  events : ∃ gone, w'.lifetimes.events = w.lifetimes.events ++ Lifetimes.dropEvents gone
  balances : Balances w w' x

/-- Nothing but the fuse has changed, and the pool may have freed the chunks it kept. -/
structure Idle (w w' : World) : Prop where
  registry : w'.registry = w.registry
  settings : w'.settings = w.settings
  version : w'.version = w.version
  handles : w'.handles = w.handles
  catalogue : w'.catalogue = w.catalogue
  events : w'.lifetimes.events = w.lifetimes.events
  pool : w'.pool = w.pool ∨ w'.pool = w.pool.flush

lemma Idle.akin (hx : Idle w w') : w.pool.Akin w'.pool := by
  rcases hx.pool with hp | hp
  · rw [hp]
    exact .refl _
  · rw [hp]
    exact Pool.akin_flush _

lemma Idle.retained (hx : Idle w w') : w'.pool.retained ≤ w.pool.retained := by
  rcases hx.pool with hp | hp
  · rw [hp]
  · rw [hp, Pool.flush]
    exact Nat.zero_le _

/-- One change, with the values that come in and leave by it. -/
inductive Transition : World → Traffic → World → Prop
  | refused {w w' : World} {f : Fault} (hr : Refused w f w') : Transition w 0 w'
  | stalled {w v w' : World} {id : Nat} {a b : Archetype} {ks : List Kind}
      (ho : Opened w v id a) (hx : Stalled v w' id a b ks) : Transition w 0 w'
  | filled {w v w' : World} {h : Handle} {id : Nat} {a b : Archetype}
      (ho : Opened w v id a) (hx : Filled v w' h id a b) : Transition w 0 w'
  | moved {w w' : World} {h : Handle} {ts : List TypeCode} (hm : Moved w h ts w') :
      Transition w 0 w'
  | allocated {w : World} {h : Handle} {handles : HandleTable}
      (ha : w.handles.allocate = .ok (h, handles)) : Transition w 0 { w with handles }
  | freed {w : World} {h : Handle} {handles : HandleTable}
      (hl : w.handles.location h = .ok none) (hf : w.handles.free h = .ok handles) :
      Transition w 0 { w with handles }
  | registered {w : World} {k : Kind} {m : Markers} {t : TypeCode} {registry : Registry}
      (hr : w.registry.register k m = .ok (t, registry)) : Transition w 0 { w with registry }
  | written {w w' : World} {id : Nat} {a b : Archetype} {x : Traffic}
      (hx : Written w w' id a b x) : Transition w x w'
  | returned (w : World) (k : Kind) (v : Value) :
      Transition w (owned [(k, v)], 0) { w with lifetimes := w.lifetimes.drop k v }
  | idle {w w' : World} (hx : Idle w w') : Transition w 0 w'

inductive Transitions : World → Traffic → World → Prop
  | refl (w : World) : Transitions w 0 w
  | step {w v w' : World} {x y : Traffic} (hx : Transition w x v) (hy : Transitions v y w') :
      Transitions w (x + y) w'

lemma Transition.single (hx : Transition w x w') : Transitions w x w' := by
  rw [← add_zero x]
  exact .step hx (.refl w')

theorem Transitions.trans (hx : Transitions w x v) (hy : Transitions v y w') :
    Transitions w (x + y) w' := by
  induction hx with
  | refl w => rwa [zero_add]
  | step hx _ ih =>
    rw [add_assoc]
    exact .step hx (ih hy)

lemma Refused.sound {f : Fault} (hs : w.Sound) (hr : Refused w f w') : w'.Sound := by
  cases hr with
  | types => exact hs
  | room ho hf => exact (ho.sound hs).recycle _

lemma Moved.sound {ts : List TypeCode} (hs : w.Sound) (hm : Moved w h ts w') : w'.Sound := by
  cases hm with
  | away ht hx => exact hx.sound hs
  | still hl ha hsig => exact hs
  | across ho hsig hx => exact hx.sound (ho.sound hs)

lemma Written.roster_eq (hx : Written w w' id a b x) :
    w'.catalogue.roster = w.catalogue.roster := by
  rw [hx.catalogue, Catalogue.roster_set hx.found, hx.roster, ← Catalogue.roster_of_get hx.found,
    Function.update_eq_self]

lemma Written.sound (hs : w.Sound) (hx : Written w w' id a b x) : w'.Sound := by
  refine hs.of_kept hx.kept ?_ ?_
  · rw [hx.catalogue]
    exact hs.catalogue.set hx.found hx.blank hx.packed
  · rw [hx.handles, hx.roster_eq]
    exact hs.placed

lemma Sound.of_unplaced (hs : w.Sound) {t : HandleTable} {m : Except Fault (Option Location)}
    (hl : ∀ l, w.handles.location h ≠ .ok (some l)) (hm : ∀ l, m ≠ .ok (some l))
    (ht : t.location = Function.update w.handles.location h m) :
    Sound { w with handles := t } :=
  ⟨hs.registry, hs.chunks, hs.catalogue, by rw [ht]; exact hs.placed.update hl hm⟩

theorem Transition.sound (hs : w.Sound) (hx : Transition w x w') : w'.Sound := by
  cases hx with
  | refused hr => exact hr.sound hs
  | stalled ho hx => exact hx.sound (ho.sound hs)
  | filled ho hx => exact hx.sound (ho.sound hs)
  | moved hm => exact hm.sound hs
  | allocated ha =>
    obtain ⟨hnew, hloc, -⟩ := HandleTable.location_allocate ha
    exact hs.of_unplaced (by simp [hnew]) (by simp) hloc
  | freed hl hf =>
    obtain ⟨hloc, -⟩ := HandleTable.location_free hf
    exact hs.of_unplaced (by simp [hl]) (by simp) hloc
  | registered hr =>
    obtain ⟨hvalid, hext, -⟩ := Registry.register_spec hs.registry hr
    exact ⟨hvalid, hs.chunks, hs.catalogue.extend hext, hs.placed⟩
  | written hx => exact hx.sound hs
  | returned k v => exact ⟨hs.registry, hs.chunks, hs.catalogue, hs.placed⟩
  | idle hx =>
    refine ⟨hx.registry ▸ hs.registry, hx.settings ▸ hs.chunks, ?_, ?_⟩
    · rw [hx.catalogue, hx.registry, hx.settings]
      exact hs.catalogue
    · rw [hx.catalogue, hx.handles]
      exact hs.placed

theorem Transitions.sound (hs : w.Sound) (hx : Transitions w x w') : w'.Sound := by
  induction hx with
  | refl w => exact hs
  | step hx _ ih => exact ih (hx.sound hs)

lemma Balances.trans_zero (h : Balances w v 0) (h' : Balances v w' 0) : Balances w w' 0 := by
  have hboth := h.trans h'
  rwa [add_zero] at hboth

lemma Refused.balances {f : Fault} (hs : w.Sound) (hr : Refused w f w') : Balances w w' 0 := by
  cases hr with
  | types => exact Balances.refl w
  | room ho hf => exact ho.balances.trans_zero (balances_recycle (ho.sound hs) _)

lemma Moved.balances {ts : List TypeCode} (hs : w.Sound) (hm : Moved w h ts w') :
    Balances w w' 0 := by
  cases hm with
  | away ht hx => exact hx.balances hs
  | still hl ha hsig => exact Balances.refl w
  | across ho hsig hx => exact ho.balances.trans_zero (hx.balances (ho.sound hs))

/-- Every change balances the values that come in and leave by it. -/
theorem Transition.balances (hs : w.Sound) (hx : Transition w x w') : Balances w w' x := by
  cases hx with
  | refused hr => exact hr.balances hs
  | stalled ho hx => exact ho.balances.trans_zero hx.balances
  | filled ho hx => exact ho.balances.trans_zero hx.balances
  | moved hm => exact hm.balances hs
  | allocated ha => exact .of_eq rfl rfl
  | freed hl hf => exact .of_eq rfl rfl
  | registered hr => exact .of_eq rfl rfl
  | written hx => exact hx.balances
  | returned k v =>
    refine ⟨_, congrArg Lifetimes.events (Lifetimes.drop_eq w.lifetimes k v), ?_⟩
    rw [ended_dropEvents, begun_dropEvents, add_zero]
    simp [Traffic.entering, Traffic.leaving]
    rfl
  | idle hx => exact .of_eq hx.events (by rw [stock, stock, hx.catalogue])

theorem Transitions.balances (hs : w.Sound) (hx : Transitions w x w') : Balances w w' x := by
  induction hx with
  | refl w => exact Balances.refl w
  | step hx _ ih => exact (hx.balances hs).trans (ih (hx.sound hs))

/-- A refusal leaves the archetypes as they were: an opened one is given up again, and one that was
there is only given up if it was empty, and then there was no memory for a chunk. -/
theorem Refused.outcome {f : Fault} (hs : w.Sound) (hr : Refused w f w') :
    w' = { w with catalogue := w'.catalogue } ∧
      (w'.catalogue.get? = w.catalogue.get? ∧ w'.catalogue.active = w.catalogue.active ∨
        w.pool.take = .error f ∧ ∃ id a, w.catalogue.get? id = some a ∧ a.isEmpty = true ∧
          w'.catalogue = w.catalogue.recycle id) := by
  cases hr with
  | types => exact ⟨rfl, .inl ⟨rfl, rfl⟩⟩
  | @room v id a ho hf =>
    refine ⟨by rw [recycle, ho.rest], ?_⟩
    cases ho with
    | added h => exact .inl (Catalogue.recycle_add hs.catalogue.valid h.add h.isEmpty)
    | found h =>
      by_cases hempty : a.isEmpty = true
      · have hchunks := (hs.catalogue.packed _ _ h).chunks_of_isEmpty hempty
        rcases Archetype.reserve_error hf with ⟨hmax, -⟩ | htake
        · have hone := hs.chunks
          rw [(hs.catalogue.drafted _ _ h).maxChunks, hchunks, List.length_nil] at hmax
          omega
        · exact .inr ⟨htake, id, a, h, hempty, rfl⟩
      · rw [recycle, Catalogue.recycle_of_not_empty h hempty]
        exact .inl ⟨rfl, rfl⟩

/-- Memory gives every chunk that is asked for, or none; in the second case there are none and no
archetype is in use. -/
structure Supplied (w : World) : Prop where
  steady : w.pool.Steady
  bare : w.pool.supply = some 0 → w.pool.retained = 0 ∧ ∀ id, w.catalogue.get? id = none

lemma Supplied.of_eq (hw : w.Supplied) (hpool : w.pool.Akin w'.pool)
    (hretained : w'.pool.retained ≤ w.pool.retained)
    (hget : w'.catalogue.get? = w.catalogue.get?) : w'.Supplied := by
  refine ⟨hpool.steady hw.steady, fun hnone => ?_⟩
  obtain ⟨hzero, hbare⟩ := hw.bare ((hpool.supply hw.steady).symm.trans hnone)
  exact ⟨by omega, fun id => by rw [hget, hbare]⟩

lemma Supplied.of_not (hw : w.Supplied) (hpool : w.pool.Akin w'.pool)
    (hnot : w.pool.supply ≠ some 0) : w'.Supplied :=
  ⟨hpool.steady hw.steady, fun hnone =>
    absurd ((hpool.supply hw.steady).symm.trans hnone) hnot⟩

lemma Supplied.of_reserve (hs : w.Sound) (hw : w.Supplied) (ho : Opened w v id a)
    {q : Archetype × Pool} (hq : a.reserve v.pool v.version = .ok q) :
    w.pool.supply ≠ some 0 := by
  intro hnone
  obtain ⟨hzero, hbare⟩ := hw.bare hnone
  cases ho with
  | found h =>
    rw [hbare] at h
    simp at h
  | added h =>
    have hroom : a.hasRoom = false := by simp [Archetype.hasRoom, h.chunks]
    have hmax : ¬ a.maxChunks ≤ a.chunks.length := by
      have hone := hs.chunks
      rw [h.chunks, h.drafted.maxChunks, List.length_nil]
      omega
    have hpool : v.pool = w.pool := by rw [h.rest]
    simp [Archetype.reserve, hroom, hmax, hpool, Pool.take, hzero, hnone, Except.map] at hq

/-- With steady memory a refusal changes no archetype. -/
theorem Refused.unchanged {f : Fault} (hs : w.Sound) (hw : w.Supplied) (hr : Refused w f w') :
    w' = { w with catalogue := w'.catalogue } ∧ w'.catalogue.get? = w.catalogue.get? ∧
      w'.catalogue.active = w.catalogue.active := by
  obtain ⟨hrest, hsame | ⟨htake, id, a, ha, -⟩⟩ := hr.outcome hs
  · exact ⟨hrest, hsame⟩
  · rw [(hw.bare (Pool.take_eq_error htake).2.1).2] at ha
    cases ha

lemma Refused.supplied {f : Fault} (hs : w.Sound) (hw : w.Supplied) (hr : Refused w f w') :
    w'.Supplied := by
  obtain ⟨hrest, hget, -⟩ := hr.unchanged hs hw
  refine hw.of_eq ?_ (by rw [hrest]) hget
  rw [hrest]
  exact .refl _

lemma Supplied.of_placed (hs : w.Sound) (hw : w.Supplied) {l : Location}
    (hl : w.handles.location h = .ok (some l)) : w.pool.supply ≠ some 0 := by
  intro hnone
  obtain ⟨a, r, ha, -⟩ := hs.get hl
  rw [(hw.bare hnone).2] at ha
  simp at ha

lemma Moved.supplied {ts : List TypeCode} (hs : w.Sound) (hw : w.Supplied)
    (hm : Moved w h ts w') : w'.Supplied := by
  cases hm with
  | away ht hx => exact hw.of_not hx.kept.pool (hw.of_placed hs hx.placed)
  | still hl ha hsig => exact hw
  | across ho hsig hx =>
    have hl := hx.placed
    rw [ho.handles] at hl
    exact hw.of_not (ho.kept.trans hx.kept).pool (hw.of_placed hs hl)

/-- No change lets such a store have archetypes in use without memory. -/
theorem Transition.supplied (hs : w.Sound) (hw : w.Supplied) (hx : Transition w x w') :
    w'.Supplied := by
  cases hx with
  | refused hr => exact hr.supplied hs hw
  | stalled ho hx =>
    obtain ⟨q, -, hq, -⟩ := hx.room
    exact hw.of_not (ho.kept.trans hx.kept).pool (hw.of_reserve hs ho hq)
  | filled ho hx =>
    obtain ⟨q, hq⟩ := hx.room
    exact hw.of_not (ho.kept.trans hx.kept).pool (hw.of_reserve hs ho hq)
  | moved hm => exact hm.supplied hs hw
  | allocated ha => exact ⟨hw.steady, hw.bare⟩
  | freed hl hf => exact ⟨hw.steady, hw.bare⟩
  | registered hr => exact ⟨hw.steady, hw.bare⟩
  | written hx =>
    refine hw.of_not hx.kept.pool fun hnone => ?_
    have hfound := hx.found
    rw [(hw.bare hnone).2] at hfound
    simp at hfound
  | returned k v => exact ⟨hw.steady, hw.bare⟩
  | idle hx => exact hw.of_eq hx.akin hx.retained (by rw [hx.catalogue])

theorem Transitions.supplied (hs : w.Sound) (hw : w.Supplied) (hx : Transitions w x w') :
    w'.Supplied := by
  induction hx with
  | refl w => exact hw
  | step hx _ ih => exact ih (hx.sound hs) (hx.supplied hs hw)

end EntityStore.World
