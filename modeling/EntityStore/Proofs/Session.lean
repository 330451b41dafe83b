import Mathlib
import EntityStore.Proofs.Playing

/-!
# Sessions

A session is a store together with the scripts recorded for it. Its moves are all that callers can
do: operations, writes, registrations, and recording, joining, giving up and playing scripts, each
of which may fail, be cut short by a default that cannot be made, or be refused a chunk because
memory has run out. What holds of a new store and is kept by every move holds in every session.
-/
namespace EntityStore

open Lifetimes

/-- Settings that come from the standard ones by tuning, as far as rounding up stays within machine
words. -/
inductive Settings.Tuned : Settings → Prop
  | standard : Tuned {}
  | chunkSize {s : Settings} (hs : Tuned s) (n : Nat) (hn : n + 63 < wordLimit) :
      Tuned (s.withChunkSize n)
  | maxTypes {s : Settings} (hs : Tuned s) (n : Nat) : Tuned (s.withMaxTypes n)
  | maxChunks {s : Settings} (hs : Tuned s) (n : Nat) : Tuned (s.withMaxChunks n)
  | retained {s : Settings} (hs : Tuned s) (n : Nat) : Tuned (s.withRetained n)
  | indexMin {s : Settings} (hs : Tuned s) (n : Nat) (hn : n ≤ wordLimit / 2) :
      Tuned (s.withIndexMin n)

lemma Settings.Tuned.one_le {s : Settings} (hs : s.Tuned) : 1 ≤ s.maxChunks := by
  induction hs with
  | standard => decide
  | chunkSize _ n _ ih => exact ih
  | maxTypes _ n ih => exact ih
  | maxChunks _ n ih => exact le_max_right n 1
  | retained _ n ih => exact ih
  | indexMin _ n _ ih => exact ih

/-- New stores, whatever the settings, the memory and the hash. -/
inductive World.New : World → Prop
  | create {name : String} {maxTypes : Nat} {settings : Settings} {supply : Option Nat}
      {hash : List TypeCode → Nat} {w : World} (ht : settings.Tuned)
      (hw : World.create (Registry.new name maxTypes) settings supply hash = .ok w) : New w

/-- A store and the scripts recorded for it, with the traffic so far. -/
structure Session where
  world : World
  scripts : List Script := []
  traffic : Traffic := 0

/-- What callers can do. Scripts are named by their numbers; joining scripts one by one to a new
one merges them. -/
inductive Move
  | operate (op : Operation)
  | write (write : Write)
  | register (kind : Kind) (markers : Markers)
  | bump
  | flush
  /-- Says how many more defaults can be made before one fails. -/
  | fuse (left : Option Nat)
  /-- Says how many more chunks memory has before one is refused. -/
  | memory (left : Option Nat)
  | newScript
  | record (script : Nat) (command : Command)
  | append (script other : Nat)
  | discard (script : Nat)
  | play (script : Nat)

/-- Records a command, giving a creation its number. -/
def Script.record (s : Script) : Command → Script
  | .create types => (s.create types).2
  | c => s.push c

lemma Script.commands_record (s : Script) (c : Command) :
    (s.record c).commands = s.commands ++ [c] := by
  cases c <;> rfl

namespace Session

variable {s s' : Session} {w : World}

/-- The session after a move. A script that was joined to another, given up or played is empty. -/
def move (s : Session) : Move → Session
  | .operate op => { s with world := op.run s.world, traffic := s.traffic + op.traffic }
  | .write m => { s with world := m.run s.world, traffic := s.traffic + m.traffic s.world }
  | .register k m =>
      match s.world.registry.register k m with
      | .ok (_, registry) => { s with world := { s.world with registry } }
      | .error _ => s
  | .bump => { s with world := s.world.bump.2 }
  | .flush => { s with world := s.world.flushPool }
  | .fuse n =>
      { s with world := { s.world with lifetimes := { s.world.lifetimes with fuse := n } } }
  | .memory n => { s with world := { s.world with pool := { s.world.pool with supply := n } } }
  | .newScript => { s with scripts := s.scripts ++ [.empty] }
  | .record i c =>
      match s.scripts[i]? with
      | none => s
      | some p =>
          { s with
            scripts := s.scripts.set i (p.record c)
            traffic := s.traffic + (owned c.held.toList, 0) }
  | .append i j =>
      match s.scripts[i]?, s.scripts[j]? with
      | some p, some q =>
          if i = j then s
          else { s with scripts := (s.scripts.set j .empty).set i (p.append q) }
      | _, _ => s
  | .discard i =>
      match s.scripts[i]? with
      | none => s
      | some p =>
          { s with
            world := { s.world with lifetimes := p.discard s.world.lifetimes }
            scripts := s.scripts.set i .empty }
  | .play i =>
      match s.scripts[i]? with
      | none => s
      | some p =>
          let r := p.playback s.world
          { s with world := World.after r.1, scripts := s.scripts.set i r.2 }

def failure (s : Session) : Move → Option Failure
  | .operate op => op.failure s.world
  | .play i => (s.scripts[i]?).bind fun p => World.failure (p.playback s.world).1
  | _ => none

/-- The owned values held in recorded commands. -/
def held (s : Session) : Multiset (Kind × Value) :=
  (s.scripts.map fun p => owned (Script.held p.commands)).sum

/-- Sessions that moves lead to from a new store. Memory may run out before any move or in the
middle of one, and come back. -/
inductive Strained : Session → Prop
  | create {w : World} (hw : w.New) : Strained { world := w }
  | move {s : Session} (hs : Strained s) (m : Move) : Strained (s.move m)

/-- Owned values are all accounted for: what is stored, held in commands, was dropped or changed
in place is what was made as a default or came in. -/
def Accounted (s : Session) : Prop :=
  s.world.stock + s.held + ended s.world.lifetimes.events + s.traffic.leaving =
    begun s.world.lifetimes.events + s.traffic.entering

structure Invariant (s : Session) : Prop where
  sound : s.world.Sound
  accounted : s.Accounted

end Session

namespace World
variable {registry : Registry} {settings : Settings} {supply : Option Nat}
  {hash : List TypeCode → Nat} {w : World}

lemma create_eq_ok (hw : create registry settings supply hash = .ok w) :
    w = { registry, settings,
          pool := { chunkSize := settings.chunkSize, retain := settings.retained, supply }
          catalogue := Catalogue.new settings.indexMin hash } := by
  unfold create Pool.new at hw
  split_ifs at hw
  · cases hw
  · exact (Except.ok.inj hw).symm

lemma sound_create (hr : registry.Valid) (ht : settings.Tuned)
    (hw : create registry settings supply hash = .ok w) : w.Sound := by
  rw [create_eq_ok hw]
  have hget : ∀ id, (Catalogue.new settings.indexMin hash).get? id = none := fun id => rfl
  refine ⟨hr, ht.one_le,
    ⟨Catalogue.valid_new _ _, fun id a ha => ?_, fun id a ha => ?_⟩, fun h id i => ?_⟩
  · simp [hget] at ha
  · simp [hget] at ha
  · have hl : ∀ l, HandleTable.location {} h ≠ .ok l := fun l hl => by
      simp [HandleTable.location_eq_ok] at hl
    exact iff_of_false (hl _) (by simp [Catalogue.roster, handlesOf, Catalogue.entries, hget])

lemma New.eq (hw : w.New) : ∃ (name : String) (maxTypes : Nat) (settings : Settings)
    (supply : Option Nat) (hash : List TypeCode → Nat), settings.Tuned ∧
      w = { registry := Registry.new name maxTypes, settings,
            pool := { chunkSize := settings.chunkSize, retain := settings.retained, supply }
            catalogue := Catalogue.new settings.indexMin hash } := by
  cases hw with
  | create ht hw => exact ⟨_, _, _, _, _, ht, create_eq_ok hw⟩

lemma New.sound (hw : w.New) : w.Sound := by
  cases hw with
  | create ht hw => exact sound_create (Registry.valid_new _ _) ht hw

end World

namespace Session
variable {s : Session} {w' : World} {x y : Traffic}

lemma invariant_create {w : World} (hw : w.New) : Invariant { world := w } := by
  refine ⟨hw.sound, ?_⟩
  obtain ⟨_, _, _, _, _, -, rfl⟩ := hw.eq
  rw [Accounted]
  simp [held, World.stock, Catalogue.total, Catalogue.new, Catalogue.archetypes]

/-- The store may change while values pass between it, the scripts and the outside: what the scripts
hold less and what comes in is what the store takes. -/
lemma Invariant.pass (hs : s.Invariant) (hx : World.Transitions s.world x w')
    {scripts : List Script}
    (hm : held { s with scripts } + y.leaving + x.entering = s.held + x.leaving + y.entering) :
    Invariant { world := w', scripts, traffic := s.traffic + y } := by
  refine ⟨hx.sound hs.sound, ?_⟩
  obtain ⟨es, hes, hbalance⟩ := hx.balances hs.sound
  have hledger := hs.accounted
  unfold Accounted at hledger ⊢
  change w'.stock + held { s with scripts } + _ + _ = _
  rw [hes, ended_append, begun_append, Traffic.leaving_add, Traffic.entering_add]
  -- both sides of the three equations add up, with the traffic of the store on either side
  refine add_right_cancel (b := x.leaving + x.entering) ?_
  calc _ = (w'.stock + ended es + x.leaving) +
        (held { s with scripts } + y.leaving + x.entering) +
        (ended s.world.lifetimes.events + s.traffic.leaving) := by abel
    _ = (s.world.stock + s.held + ended s.world.lifetimes.events + s.traffic.leaving) +
        (begun es + x.entering + x.leaving + y.entering) := by
      rw [hbalance, hm]
      abel
    _ = _ := by
      rw [hledger]
      abel

lemma Invariant.operate (hs : s.Invariant) (hx : World.Transitions s.world x w') :
    Invariant { s with world := w', traffic := s.traffic + x } :=
  hs.pass hx rfl

/-- The store may change in ways that no owned value notices. -/
lemma Invariant.idle (hs : s.Invariant) (hx : World.Idle s.world w') :
    Invariant { s with world := w' } := by
  have hmove := hs.operate (World.Transition.idle hx).single
  rwa [add_zero] at hmove

lemma Invariant.outside (hs : s.Invariant) {version : UInt32} {pool : Pool} :
    Invariant { s with world := { s.world with version, pool } } :=
  ⟨⟨hs.sound.registry, hs.sound.chunks, hs.sound.catalogue, hs.sound.placed⟩, hs.accounted⟩

/-- Values that are handed over may be held in scripts. -/
lemma Invariant.hold (hs : s.Invariant) {scripts : List Script} {m : Multiset (Kind × Value)}
    (hm : held { s with scripts } = s.held + m) :
    Invariant { s with scripts, traffic := s.traffic + (m, 0) } := by
  refine hs.pass (.refl s.world) ?_
  rw [hm]
  simp [Traffic.entering, Traffic.leaving]

lemma Invariant.rearrange (hs : s.Invariant) {scripts : List Script}
    (hm : held { s with scripts } = s.held) : Invariant { s with scripts } := by
  have hmove := hs.hold (m := 0) (hm.trans (add_zero _).symm)
  rwa [Prod.mk_zero_zero, add_zero] at hmove

lemma Invariant.release (hs : s.Invariant) {scripts : List Script} {m : Multiset (Kind × Value)}
    (hx : World.Transitions s.world (m, 0) w') (hm : held { s with scripts } + m = s.held) :
    Invariant { s with world := w', scripts } := by
  have hpass : held { s with scripts } + Traffic.leaving 0 + Traffic.entering (m, 0) =
      s.held + Traffic.leaving (m, 0) + Traffic.entering 0 := by
    rw [← hm]
    simp [Traffic.entering, Traffic.leaving]
  have hmove := hs.pass hx hpass
  rwa [add_zero] at hmove

section Scripts
variable {i j : Nat} {p q : Script}

lemma held_set (hp : s.scripts[i]? = some p) (q : Script) :
    held { s with scripts := s.scripts.set i q } + owned (Script.held p.commands) =
      s.held + owned (Script.held q.commands) :=
  sum_map_set _ hp q

lemma held_record (p : Script) (c : Command) :
    owned (Script.held (p.record c).commands) =
      owned (Script.held p.commands) + owned c.held.toList := by
  rw [Script.commands_record, Script.held, List.filterMap_append, owned_append]
  cases hc : c.held <;> simp [Script.held, hc]

lemma held_append (p q : Script) : owned (Script.held (p.append q).commands) =
    owned (Script.held p.commands) + owned (Script.held q.commands) := by
  have hshift : ∀ c : Command, (c.shift p.created).held = c.held := by
    intro c
    cases c <;> rfl
  simp [Script.append, Script.held, owned_append, List.filterMap_map, hshift]

lemma held_empty : owned (Script.held Script.empty.commands) = 0 := rfl

lemma held_join (hij : i ≠ j) (hp : s.scripts[i]? = some p) (hq : s.scripts[j]? = some q) :
    held { s with scripts := (s.scripts.set j .empty).set i (p.append q) } = s.held := by
  have hp' : (s.scripts.set j .empty)[i]? = some p := by
    rw [List.getElem?_set_ne hij.symm, hp]
  have hfirst := held_set hq .empty
  have hsecond := held_set (s := { s with scripts := s.scripts.set j .empty }) hp' (p.append q)
  rw [held_append, ← add_assoc, add_right_comm] at hsecond
  rw [held_empty, add_zero] at hfirst
  calc _ = _ := add_right_cancel hsecond
    _ = s.held := hfirst

end Scripts

/-- Every move keeps the invariant. -/
theorem Invariant.move (hs : s.Invariant) (m : Move) : (s.move m).Invariant := by
  cases m with
  | operate op => exact hs.operate (op.transitions hs.sound)
  | write m => exact hs.operate (m.rewrites hs.sound).transitions
  | register k m =>
    simp only [Session.move]
    cases hr : s.world.registry.register k m with
    | error f => exact hs
    | ok tr =>
      have hmove := hs.operate (World.Transition.registered hr).single
      rwa [add_zero] at hmove
  | bump => exact hs.outside
  | flush => exact hs.idle ⟨rfl, rfl, rfl, rfl, rfl, rfl, .inr rfl⟩
  | fuse n => exact hs.idle ⟨rfl, rfl, rfl, rfl, rfl, rfl, .inl rfl⟩
  | memory n => exact hs.outside
  | newScript => exact hs.rearrange (by simp [held, held_empty])
  | record i c =>
    simp only [Session.move]
    cases hp : s.scripts[i]? with
    | none => exact hs
    | some p =>
      refine hs.hold ?_
      have hset := held_set hp (p.record c)
      rw [held_record, ← add_assoc, add_right_comm] at hset
      exact add_right_cancel hset
  | append i j =>
    simp only [Session.move]
    cases hp : s.scripts[i]? with
    | none => exact hs
    | some p =>
      cases hq : s.scripts[j]? with
      | none => exact hs
      | some q =>
        split_ifs with hij
        · exact hs
        · exact hs.rearrange (held_join hij hp hq)
  | discard i =>
    simp only [Session.move]
    cases hp : s.scripts[i]? with
    | none => exact hs
    | some p =>
      refine hs.release (transitions_dropAll s.world (Script.held p.commands)) ?_
      rw [held_set hp, held_empty, add_zero]
  | play i =>
    simp only [Session.move]
    cases hp : s.scripts[i]? with
    | none => exact hs
    | some p =>
      refine hs.release (Script.transitions hs.sound p.commands []) ?_
      exact (held_set hp .empty).trans (add_zero _)

theorem Strained.invariant (hs : s.Strained) : s.Invariant := by
  induction hs with
  | create hw => exact invariant_create hw
  | move _ m ih => exact ih.move m

def run (s : Session) (ms : List Move) : Session := ms.foldl move s

lemma Strained.run (hs : s.Strained) (ms : List Move) : (s.run ms).Strained := by
  induction ms generalizing s with
  | nil => exact hs
  | cons m ms ih => exact ih (hs.move m)

def note : Kind := { name := "Note", size := 24, align := 8, initial := .text "", owned := true }

/-- A new store. -/
def blank : Session where
  world :=
    { registry := Registry.new "Handle", settings := {}, pool := { chunkSize := 16384, retain := 0 }
      catalogue := Catalogue.new 32 }

/-- Two entities with notes, the first of which was destroyed, and a script that holds a note. -/
def sample : Session := blank.run
  [.register note .none, .operate (.createWith [⟨1⟩]), .operate (.createWith [⟨1⟩]),
    .operate (.put ⟨1, 1⟩ note (.text "kept")), .operate (.destroy ⟨0, 1⟩), .newScript,
    .record 0 (.put (.existing ⟨1, 1⟩) note (.text "later" 1))]

lemma new_blank : blank.world.New := .create .standard rfl

lemma strained_blank : blank.Strained := .create new_blank

lemma strained_sample : sample.Strained := strained_blank.run _

end Session

end EntityStore
