import Mathlib
import EntityStore.Proofs.Evolution

/-!
# Refused operations leave no trace

An operation that is refused may have brought a handle to life, opened an archetype or taken a
number for one by then. All of it is undone: handles, archetypes, counters and the pool are as they
were, and no stored value was dropped. This is so where memory always had chunks or never had any:
where it runs out, a refusal can give up an archetype without entities that a default has left
behind.
-/
namespace EntityStore

namespace World

/-- All that callers can see of entities, archetypes, the version and the pool is the same. -/
structure Intact (w w' : World) : Prop where
  location : w'.handles.location = w.handles.location
  archetypes : w'.catalogue.get? = w.catalogue.get?
  entityCount : w'.entityCount = w.entityCount
  archetypeCount : w'.archetypeCount = w.archetypeCount
  version : w'.version = w.version
  pool : w'.pool = w.pool

variable {w w' : World} {h : Handle} {f : Fault} {ts : List TypeCode}
  {g : List TypeCode → List TypeCode → List TypeCode}

lemma Intact.refl (w : World) : Intact w w := ⟨rfl, rfl, rfl, rfl, rfl, rfl⟩

lemma Intact.of_catalogue {registry : Registry} {lifetimes : Lifetimes} {catalogue : Catalogue}
    (hget : catalogue.get? = w.catalogue.get?) (hactive : catalogue.active = w.catalogue.active) :
    Intact w { w with registry, lifetimes, catalogue } :=
  ⟨rfl, hget, rfl, hactive, rfl, rfl⟩

lemma Refused.intact (hs : w.Sound) (hw : w.Supplied) (hr : Refused w f w') :
    Intact w w' ∧ w'.lifetimes = w.lifetimes := by
  obtain ⟨hrest, hget, hactive⟩ := hr.unchanged hs hw
  rw [hrest]
  exact ⟨.of_catalogue hget hactive, rfl⟩

lemma Retyped.intact (hs : w.Sound) (hw : w.Supplied)
    (hr : Retyped w g h ts (.error (.refused f) w')) :
    Intact w w' ∧ w'.lifetimes = w.lifetimes :=
  hr.refusal.intact hs hw

lemma Created.intact (hs : w.Sound) (hw : w.Supplied)
    (hc : Created w ts (.error (.refused f) w')) : Intact w w' ∧ w'.lifetimes = w.lifetimes := by
  cases hc with
  | refused f => exact ⟨.refl w, rfl⟩
  | @undone h t t' f v ha hr hf =>
    obtain ⟨hnew, hloc, hlive⟩ := HandleTable.location_allocate ha
    obtain ⟨hloc', hlive'⟩ := HandleTable.location_free hf
    have hv := hr.intact ((Transition.allocated ha).sound hs) ⟨hw.steady, hw.bare⟩
    refine ⟨⟨?_, hv.1.archetypes, ?_, hv.1.archetypeCount, hv.1.version, hv.1.pool⟩, hv.2⟩
    · change t'.location = _
      rw [hloc', hr.handles]
      change Function.update t.location h _ = _
      rw [hloc, Function.update_idem, ← hnew, Function.update_eq_self]
    · change t'.live = w.handles.live
      rw [hlive', hr.handles]
      change t.live - 1 = _
      rw [hlive, Nat.add_sub_cancel]

lemma Destroyed.intact (hd : Destroyed w h (.error (.refused f) w')) :
    Intact w w' ∧ w'.lifetimes = w.lifetimes := by
  cases hd with
  | refused => exact ⟨.refl w, rfl⟩

lemma Assigned.intact {k : Kind} {u : Value} (hs : w.Sound) (hw : w.Supplied)
    (ha : Assigned w h k u (.error (.refused f) w')) :
    Intact w w' ∧ w'.lifetimes = w.lifetimes := by
  cases ha with
  | refused hk => exact ⟨.refl w, rfl⟩
  | unchanged hk hr =>
    obtain ⟨hi, hl⟩ := hr.intact ((Transition.registered hk).sound hs) ⟨hw.steady, hw.bare⟩
    exact ⟨⟨hi.location, hi.archetypes, hi.entityCount, hi.archetypeCount, hi.version, hi.pool⟩, hl⟩

/-- A value that is not stored is dropped, but nothing else is. -/
lemma put_intact {k : Kind} {u : Value} (hs : w.Sound) (hw : w.Supplied)
    (hp : put h k u w = .error (.refused f) w') :
    Intact w w' ∧ w'.lifetimes = w.lifetimes.drop k u := by
  obtain ⟨v, ha, rfl⟩ := assigned_of_put_error hs hp
  obtain ⟨hi, hl⟩ := ha.intact hs hw
  exact ⟨⟨hi.location, hi.archetypes, hi.entityCount, hi.archetypeCount, hi.version, hi.pool⟩,
    by rw [← hl]⟩

end World

/-- A move that does not change what memory has left by itself. -/
def Move.isSteady : Move → Bool
  | .memory _ => false
  | _ => true

namespace Session
variable {s : Session}

/-- Sessions in which memory is the same throughout: it gives every chunk that is asked for, or
none. -/
inductive Reachable : Session → Prop
  | create {w : World} (hw : w.New) (hp : w.pool.Steady) : Reachable { world := w }
  | move {s : Session} (hs : Reachable s) (m : Move) (hm : m.isSteady = true) :
      Reachable (s.move m)

lemma Reachable.strained (hs : s.Reachable) : s.Strained := by
  induction hs with
  | create hw hp => exact .create hw
  | move _ m _ ih => exact ih.move m

lemma Reachable.supplied (hs : s.Reachable) : s.world.Supplied := by
  induction hs with
  | create hw hp =>
    obtain ⟨_, _, _, _, _, -, rfl⟩ := hw.eq
    exact ⟨hp, fun _ => ⟨rfl, fun _ => rfl⟩⟩
  | move hs m hm ih =>
    rcases transitions_move hs.strained.invariant.sound m with rfl | ⟨n, rfl⟩ | ⟨x, hx⟩
    · exact ⟨ih.steady, ih.bare⟩
    · cases hm
    · exact hx.supplied hs.strained.invariant.sound ih

lemma Reachable.run (hs : s.Reachable) {ms : List Move} (hms : ms.all Move.isSteady = true) :
    (s.run ms).Reachable := by
  induction ms generalizing s with
  | nil => exact hs
  | cons m ms ih =>
    obtain ⟨hm, hms⟩ := Bool.and_eq_true_iff.mp hms
    exact ih (hs.move m hm) hms

lemma reachable_blank : blank.Reachable := .create new_blank (.inl rfl)

lemma reachable_sample : sample.Reachable := reachable_blank.run rfl

/-- In every session with steady memory an operation that is refused leaves every handle with its
location or invalid as it was, every archetype in use with its types, chunks, stamps and values, and
the counters, the version and the pool as they were. Nothing is dropped but a value that was handed
over to be put. -/
theorem refused_operations_are_atomic (hs : s.Reachable) :
    (∀ ts f w', World.createWith ts s.world = .error (.refused f) w' →
      World.Intact s.world w' ∧ w'.lifetimes = s.world.lifetimes) ∧
    (∀ h ts f w', World.addComponents h ts s.world = .error (.refused f) w' →
      World.Intact s.world w' ∧ w'.lifetimes = s.world.lifetimes) ∧
    (∀ h ts f w', World.removeComponents h ts s.world = .error (.refused f) w' →
      World.Intact s.world w' ∧ w'.lifetimes = s.world.lifetimes) ∧
    (∀ h f w', World.destroy h s.world = .error (.refused f) w' →
      World.Intact s.world w' ∧ w'.lifetimes = s.world.lifetimes) ∧
    ∀ h k v f w', World.put h k v s.world = .error (.refused f) w' →
      World.Intact s.world w' ∧ w'.lifetimes = s.world.lifetimes.drop k v := by
  have hsound := hs.strained.invariant.sound
  have hsupplied := hs.supplied
  refine ⟨fun ts f w' hc => ?_, fun h ts f w' ha => ?_, fun h ts f w' hr => ?_,
    fun h f w' hd => ?_, fun h k v f w' hp => World.put_intact hsound hsupplied hp⟩
  · exact World.Created.intact hsound hsupplied (hc ▸ World.created hsound ts)
  · exact World.Retyped.intact hsound hsupplied (ha ▸ World.added hsound h ts)
  · exact World.Retyped.intact hsound hsupplied (hr ▸ World.removed hsound h ts)
  · exact World.Destroyed.intact (hd ▸ World.destroyed hsound h)

/-- The second type is unknown, which shows after a handle was brought to life. -/
theorem refused_operations_are_atomic_sample :
    ∃ w', World.createWith [⟨2⟩] sample.world =
        .error (.refused (.outOfRange .componentType 2 2)) w' ∧
      World.Intact sample.world w' ∧ w'.lifetimes = sample.world.lifetimes := by
  have hfail : World.failure (World.createWith [⟨2⟩] sample.world) =
      some (.refused (.outOfRange .componentType 2 2)) := by decide +kernel
  have hcreate := World.eq_error_of_failure hfail
  exact ⟨_, hcreate, (refused_operations_are_atomic reachable_sample).1 _ _ _ hcreate⟩

end Session

end EntityStore
