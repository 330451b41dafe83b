import Mathlib
import EntityStore.World.Queries
import EntityStore.Proofs.Uniqueness

/-!
# Interrupted operations are unwound

A default that cannot be made interrupts the operation that needs it. By then the store may have
opened an archetype, got a chunk for it and made other defaults. The defaults are dropped again and
the reserved place is given up: the entities are as they were. What is left behind is listed in
full, and it does no harm to what holds in every session.
-/
namespace EntityStore

open Lifetimes

namespace Pool
variable {p q : Pool}

/-- Whatever memory has left, the pool is as it was, or it has nothing but one more buffer, which it
keeps. -/
def Regained (p q : Pool) : Prop :=
  ∃ supply, q = { p with supply } ∨ p.retained = 0 ∧ 0 < p.retain ∧
    q = { p with allocated := p.allocated + 1, retained := 1, supply }

lemma regained_give (h : p.retained ≤ p.retain) (ht : p.take = .ok q) : p.Regained q.give := by
  rcases take_eq_ok ht with ⟨hpos, rfl⟩ | ⟨hzero, -, rfl⟩
  · have hroom : p.retained - 1 < p.retain := by omega
    have hback : p.retained - 1 + 1 = p.retained := by omega
    exact ⟨p.supply, .inl (by simp only [give, hroom, hback, if_true])⟩
  · by_cases hkeep : 0 < p.retain
    · exact ⟨_, .inr ⟨hzero, hkeep, by simp [give, hzero, hkeep]; rfl⟩⟩
    · exact ⟨p.supply.map (· - 1), .inl (by simp [give, hzero, hkeep])⟩

end Pool

/-- The same chunk, but for columns that are stamped with the version. -/
structure Chunk.Restamped (v : UInt32) (c d : Chunk) : Prop where
  rows : d.rows = c.rows
  length : d.stamps.length = c.stamps.length
  stamps : ∀ (j : Nat) (u : UInt32), d.stamps[j]? = some u → u = v ∨ c.stamps[j]? = some u

structure Archetype.Restamped (v : UInt32) (a b : Archetype) : Prop where
  blank : b.blank = a.blank
  count : b.count = a.count
  chunks : List.Forall₂ (Chunk.Restamped v) a.chunks b.chunks

namespace Chunk
variable {v : UInt32}

lemma Restamped.refl (v : UInt32) (c : Chunk) : c.Restamped v c := ⟨rfl, rfl, fun _ _ h => .inr h⟩

lemma restamped_stampMany (c : Chunk) (js : List Nat) : c.Restamped v (c.stampMany v js) := by
  refine ⟨rows_stampMany c v js, length_stamps_stampMany c v js, ?_⟩
  induction js generalizing c with
  | nil => exact fun _ _ h => .inr h
  | cons j js ih =>
    intro i u hu
    rcases ih (c.stamp v j) i u hu with hv | hi
    · exact .inl hv
    · rw [stamp, List.getElem?_set] at hi
      split_ifs at hi with hij hlt
      · exact .inl (Option.some.inj hi).symm
      · exact .inr hi

end Chunk

namespace Archetype
variable {a b : Archetype} {p q : Pool} {v : UInt32}

lemma Restamped.refl (v : UInt32) (a : Archetype) : a.Restamped v a :=
  ⟨rfl, rfl, List.forall₂_same.mpr fun c _ => .refl v c⟩

lemma Restamped.eq_of_chunks_nil (h : a.Restamped v b) (hc : a.chunks = []) : b = a := by
  obtain ⟨hblank, hcount, hchunks⟩ := h
  rw [hc, List.forall₂_nil_left_iff] at hchunks
  calc b = { b.blank with chunks := b.chunks, count := b.count } := rfl
    _ = { a.blank with chunks := a.chunks, count := a.count } := by rw [hblank, hchunks, hc, hcount]
    _ = a := rfl

lemma forall₂_modify {α : Type} {R : α → α → Prop} {f : α → α} (hR : ∀ x, R x x)
    (hf : ∀ x, R x (f x)) (xs : List α) (k : Nat) : List.Forall₂ R xs (xs.modify k f) := by
  induction xs generalizing k with
  | nil =>
    rw [List.modify_nil]
    exact .nil
  | cons x xs ih =>
    cases k with
    | zero => exact .cons (hf x) (List.forall₂_same.mpr fun y _ => hR y)
    | succ k => exact .cons (hR x) (ih k)

/-- Giving up a reserved place leaves stamps, and a chunk that was got for it goes back. -/
theorem restamped_abandon (h : a.Packed) (hp : p.retained ≤ p.retain)
    (hr : a.reserve p v = .ok (b, q)) (js : List Nat) :
    a.Restamped v (b.abandon js q v).1 ∧ p.Regained (b.abandon js q v).2 := by
  rcases reserve_eq_ok hr with ⟨hroom, rfl, rfl⟩ | ⟨-, -, ht, rfl⟩
  · -- the place was in a chunk that has other rows
    rcases h.dense with hnil | ⟨init, c, hb, hpos⟩
    · simp [hasRoom, hnil] at hroom
    · have hlast : (b.modifyLast (·.stampMany v js)).chunks = init ++ [c.stampMany v js] := by
        simp [modifyLast, modifyChunk, hb.chunks, modify_concat]
      have hne : (c.stampMany v js).rows.isEmpty = false := by
        simpa using List.ne_nil_of_length_pos hpos
      have habandon : b.abandon js q v = (b.modifyLast (·.stampMany v js), q) := by
        simp only [abandon, trim, hlast, List.getLast?_concat, hne, Bool.false_eq_true, if_false]
      rw [habandon]
      exact ⟨⟨rfl, rfl, forall₂_modify (.refl v) (fun c => c.restamped_stampMany js) _ _⟩, _,
        .inl rfl⟩
  · have habandon : abandon { a with
        chunks := a.chunks ++ [Chunk.fresh a.layout.columns.length v] } js q v = (a, q.give) := by
      simp [abandon, trim, modifyLast, modifyChunk, modify_concat, Chunk.fresh]
    rw [habandon]
    exact ⟨.refl v a, Pool.regained_give hp ht⟩

end Archetype

namespace World
variable {w v w' : World} {h : Handle} {id : Nat} {ts : List TypeCode} {a b : Archetype}

/-- The archetype of the types has new stamps, or it has been added without entities. -/
inductive Leftover (w : World) (ts : List TypeCode) : Catalogue → Prop
  | stamps {id : Nat} {a b : Archetype} (ha : w.catalogue.get? id = some a)
      (hsig : a.signature = ts) (hb : a.Restamped w.version b) :
      Leftover w ts (w.catalogue.set id b)
  | empty {a : Archetype} {c : Catalogue} (ha : w.catalogue.add a = .ok c)
      (hsig : a.signature = ts) (hchunks : a.chunks = []) (hcount : a.count = 0) :
      Leftover w ts c

/-- Bringing an entity to the types was interrupted at one of the defaults that it lacks, and the
defaults made before that one have been dropped again. -/
structure Unwound (w w' : World) (h : Handle) (ts : List TypeCode) : Prop where
  kept : Kept w w'
  handles : w'.handles = w.handles
  entry : w'.entry = w.entry
  types : w'.typesOf = w.typesOf
  catalogue : Leftover w ts w'.catalogue
  pool : w.pool.Regained w'.pool
  events : ∃ es cs n, w.entry h = .ok es ∧ w.registry.registrations ts = .ok cs ∧
    w.lifetimes.Failing (lacking es cs) n ∧
    w'.lifetimes.events = w.lifetimes.events ++
      makeEvents (defaults w.lifetimes.count ((lacking es cs).take n)) ++
      dropEvents (defaults w.lifetimes.count ((lacking es cs).take n))

lemma Stalled.restamped {ks : List Kind} (hs : w.Sound) (hp : w.pool.retained ≤ w.pool.retain)
    (hx : Stalled w w' id a b ks) : a.Restamped w.version b ∧ w.pool.Regained w'.pool := by
  obtain ⟨q, js, hr, hb⟩ := hx.room
  have habandon := Archetype.restamped_abandon (hs.catalogue.packed id a hx.found) hp hr js
  rwa [hb] at habandon

lemma Opened.leftover (ho : Opened w v id a) (hsig : a.signature = ts)
    (hb : a.Restamped v.version b) : Leftover w ts (v.catalogue.set id b) := by
  have hget := ho.get
  cases ho with
  | found ha => exact .stamps ha hsig hb
  | added ha =>
    rw [hb.eq_of_chunks_nil ha.chunks, Catalogue.set_self hget]
    exact .empty ha.add hsig ha.chunks ha.count

theorem Moving.unwound (hs : w.Sound) (hp : w.pool.retained ≤ w.pool.retain)
    (hm : Moving w h ts (.error .aborted w')) : Unwound w w' h ts := by
  cases hm with
  | @stalled v w' id a b es ho hsig he hx =>
    have hv := ho.sound hs
    have hentry : w'.entry = w.entry := hx.entry.trans (ho.entry hs)
    have hpool : v.pool = w.pool := by rw [ho.rest]
    have hlives : v.lifetimes = w.lifetimes := by rw [ho.rest]
    obtain ⟨hstamps, hregained⟩ := hx.restamped hv (by rwa [hpool])
    obtain ⟨first, cs, hcols, -, hcs⟩ := (hv.catalogue.drafted _ a hx.found).columns
    obtain ⟨n, hfailing, hevents⟩ := hx.events
    rw [ho.registry, hsig] at hcs
    rw [hcols, List.tail_cons, hlives] at hfailing hevents
    refine ⟨ho.kept.trans hx.kept, hx.handles.trans ho.handles, hentry, ?_, ?_, hpool ▸ hregained,
      es, cs, n, he, hcs, hfailing, hevents⟩
    · funext g
      rw [typesOf_eq (hx.sound hv), typesOf_eq hs, hentry]
    · rw [hx.catalogue]
      exact ho.leftover hsig hstamps

/-- The operations that can be interrupted, and what has become of the store. A handle that was
brought to life stays, without archetype, and a kind stays registered. -/
inductive Interrupted (w : World) : Operation → World → Prop
  | createWith {ts : List TypeCode} {h : Handle} {handles : HandleTable} {w' : World}
      (ha : w.handles.allocate = .ok (h, handles)) (hnew : w.handles.isValid h = false)
      (hbare : w'.archetypeOf h = .ok none)
      (hx : Unwound { w with handles } w' h ts) : Interrupted w (.createWith ts) w'
  | add {h : Handle} {ts current : List TypeCode} {w' : World} (hc : w.typesOf h = .ok current)
      (hx : Unwound w w' h (Ascending.union current ts)) : Interrupted w (.add h ts) w'
  | put {h : Handle} {k : Kind} {u : Value} {t : TypeCode} {registry : Registry}
      {current : List TypeCode} {w' : World}
      (hk : w.registry.register k .none = .ok (t, registry)) (hc : w.typesOf h = .ok current)
      (hx : Unwound { w with registry } w' h (Ascending.union current [t])) :
      Interrupted w (.put h k u) { w' with lifetimes := w'.lifetimes.drop k u }

/-- Every live entity has kept its location, its types and its components. -/
structure Unharmed (w w' : World) : Prop where
  location : ∀ g, w.handles.isValid g = true → w'.handles.location g = w.handles.location g
  types : ∀ g, w.handles.isValid g = true → w'.typesOf g = w.typesOf g
  entry : ∀ g, w.handles.isValid g = true → w'.entry g = w.entry g

lemma Unwound.unharmed (hx : Unwound w w' h ts) : Unharmed w w' :=
  ⟨fun g _ => by rw [hx.handles], fun g _ => by rw [hx.types], fun g _ => by rw [hx.entry]⟩

lemma not_isValid {t : HandleTable} {f : Fault} (hl : t.location h = .error f) :
    t.isValid h = false := by
  rw [HandleTable.isValid, hl]
  rfl

lemma unharmed_allocate {handles : HandleTable} (ha : w.handles.allocate = .ok (h, handles)) :
    Unharmed w { w with handles } := by
  obtain ⟨hnew, hloc, -⟩ := HandleTable.location_allocate ha
  have hsame : ∀ g, w.handles.isValid g = true → handles.location g = w.handles.location g := by
    intro g hg
    have hne : g ≠ h := by
      rintro rfl
      rw [not_isValid hnew] at hg
      cases hg
    rw [hloc, Function.update_of_ne hne]
  refine ⟨hsame, fun g hg => ?_, fun g hg => entryAt_of_same (hsame g hg) fun _ _ => rfl⟩
  simp only [typesOf, hsame g hg]

theorem Interrupted.unharmed {op : Operation} (hi : Interrupted w op w') : Unharmed w w' := by
  cases hi with
  | createWith ha hnew hbare hx =>
    have hopened := unharmed_allocate ha
    refine ⟨fun g hg => ?_, fun g hg => ?_, fun g hg => ?_⟩
    · rw [hx.handles]
      exact hopened.location g hg
    · rw [hx.types]
      exact hopened.types g hg
    · rw [hx.entry]
      exact hopened.entry g hg
  | add hc hx => exact hx.unharmed
  | put hk hc hx =>
    have hsame := hx.unharmed
    exact ⟨hsame.location, hsame.types, hsame.entry⟩

lemma Unwound.not_difference {current : List TypeCode} (hs : w.Sound)
    (hc : w.typesOf h = .ok current) : ¬ Unwound w w' h (Ascending.difference current ts) := by
  intro hx
  obtain ⟨es, cs, n, he, hcs, ⟨⟨k, hk, -⟩, -⟩, -⟩ := hx.events
  obtain ⟨es', he', rfl⟩ := typesOf_eq_ok hs hc
  obtain rfl := Except.ok.inj (he.symm.trans he')
  have hnone : lacking es cs = [] := by
    refine lacking_eq_nil fun t ht => ?_
    rw [Registry.codes_of_registrations hcs] at ht
    exact (Ascending.difference_sublist _ _).subset ht
  simp [hnone] at hk

/-- An operation is interrupted in one of the three ways, and then it has been unwound. -/
theorem interrupted (hs : w.Sound) (hp : w.pool.retained ≤ w.pool.retain) (op : Operation)
    (hf : op.failure w = some .aborted) : Interrupted w op (op.run w) := by
  cases op with
  | create =>
    simp only [Operation.failure, createEntity] at hf
    cases ha : w.handles.allocate <;> simp [ha, failure] at hf
  | createWith ts =>
    have hc := created hs ts
    simp only [Operation.run]
    rw [eq_error_of_failure hf] at hc
    cases hc with
    | @stalled h t _ ha hm =>
      obtain ⟨hnew, hloc, -⟩ := HandleTable.location_allocate ha
      have hx := hm.unwound ((Transition.allocated ha).sound hs) hp
      refine .createWith ha (not_isValid hnew) ?_ hx
      rw [archetypeOf, hx.handles, hloc, Function.update_self]
      rfl
  | add h ts =>
    have hr := added hs h ts
    simp only [Operation.run]
    rw [eq_error_of_failure hf] at hr
    cases hr with
    | moved hv hc hm => exact .add hc (hm.unwound hs hp)
  | remove h ts =>
    have hr := removed hs h ts
    rw [eq_error_of_failure hf] at hr
    cases hr with
    -- fewer types need no defaults, so none can fail
    | moved hv hc hm => exact absurd (hm.unwound hs hp) (Unwound.not_difference hs hc)
  | put h k u =>
    have ha := assigned hs h k u
    simp only [Operation.failure, put] at hf
    simp only [Operation.run, put]
    cases hr : assign h k u w with
    | ok _ v => simp [hr] at hf
    | error e v =>
      obtain rfl : e = .aborted := by simpa [hr, failure] using hf
      rw [hr] at ha
      cases ha with
      | @unchanged t registry _ _ hk hr =>
        cases hr with
        | moved hv hc hm =>
          have hx := hm.unwound ((Transition.registered hk).sound hs) hp
          exact .put hk hc hx
  | destroy h =>
    have hd := destroyed hs h
    rw [eq_error_of_failure hf] at hd
    cases hd

end World

lemma Session.Strained.record_all {s : Session} {i : Nat} {p : Script} (hs : s.Strained)
    (hp : s.scripts[i]? = some p) (cs : List Command) :
    ∃ (s' : Session) (q : Script), s'.Strained ∧ s'.world = s.world ∧
      s'.scripts[i]? = some q ∧ q.commands = p.commands ++ cs := by
  induction cs generalizing s p with
  | nil => exact ⟨s, p, hs, rfl, hp, by simp⟩
  | cons c cs ih =>
    have hlt := (List.getElem?_eq_some_iff.mp hp).1
    have hnext : (s.move (.record i c)).scripts[i]? = some (p.record c) := by
      simp only [Session.move, hp, List.getElem?_set_self hlt]
    have hworld : (s.move (.record i c)).world = s.world := by simp [Session.move, hp]
    obtain ⟨s', q, hs', hw, hq, hcommands⟩ := ih (hs.move _) hnext
    refine ⟨s', q, hs', hw.trans hworld, hq, ?_⟩
    rw [hcommands, Script.commands_record, List.append_assoc, List.singleton_append]

namespace World
variable {w : World}

/-- Stores of sessions. -/
def Reached (w : World) : Prop := ∃ s : Session, s.Strained ∧ s.world = w

/-- What every operation relies on: handles are located where they are stored, archetypes are dense
and found by their types, free slots are chained, and the pool accounts for every chunk. -/
structure Consistent (w : World) : Prop where
  sound : w.Sound
  tidy : w.catalogue.Tidy
  lends : w.pool.Lends (w.catalogue.total fun a => a.chunks.length)

lemma Reached.consistent (hw : w.Reached) : w.Consistent := by
  obtain ⟨s, hs, rfl⟩ := hw
  exact ⟨hs.invariant.sound, hs.tidy, hs.lends⟩

lemma Reached.operate (hw : w.Reached) (op : Operation) : (op.run w).Reached := by
  obtain ⟨s, hs, rfl⟩ := hw
  exact ⟨s.move (.operate op), hs.move _, rfl⟩

lemma Reached.play (hw : w.Reached) (cs : List Command) :
    (after (Script.runAll cs [] w)).Reached := by
  obtain ⟨s, hs, rfl⟩ := hw
  have hnew : (s.move .newScript).scripts[s.scripts.length]? = some .empty := by
    simp [Session.move]
  obtain ⟨s', q, hs', hworld, hq, hcommands⟩ := (hs.move _).record_all hnew cs
  refine ⟨s'.move (.play s.scripts.length), hs'.move _, ?_⟩
  have hworld' : s'.world = s.world := hworld
  rw [Script.empty, List.nil_append] at hcommands
  simp only [Session.move, hq, Script.playback, hworld', hcommands]

end World

namespace Session
variable {s : Session}

/-- In every session an operation that is interrupted, whichever of the defaults it needs
cannot be made, has been unwound: of the defaults exactly those made before that one are dropped,
every entity that was live has kept its location, its types and its components, and all that is
left behind is new stamps or a new archetype without entities, perhaps a buffer that the pool keeps,
a new handle that has no archetype, and the registration of a kind. An interrupted script is
interrupted at one command, whose operation ends so after all before it succeeded. Afterwards the
store is consistent and again that of a session. -/
theorem interrupted_operations_are_unwound (hs : s.Strained) :
    (∀ op : Operation, op.failure s.world = some .aborted →
      World.Interrupted s.world op (op.run s.world) ∧ World.Unharmed s.world (op.run s.world) ∧
        (op.run s.world).Consistent ∧ (op.run s.world).Reached) ∧
    ∀ p : Script, World.failure (p.playback s.world).1 = some .aborted →
      ∃ before c behind made v op, p.commands = before ++ c :: behind ∧
        Script.runAll before [] s.world = .ok made v ∧ c.operation made = .ok op ∧
        op.failure v = some .aborted ∧
        World.Interrupted v op (op.run v) ∧ World.Unharmed v (op.run v) ∧
        World.after (p.playback s.world).1 = { op.run v with
          lifetimes := (op.run v).lifetimes.dropAll (Script.held behind) } ∧
        (World.after (p.playback s.world).1).Consistent ∧
        (World.after (p.playback s.world).1).Reached := by
  have hinterrupted : ∀ {w : World} (op : Operation), w.Reached →
      op.failure w = some .aborted →
        World.Interrupted w op (op.run w) ∧ World.Unharmed w (op.run w) := by
    intro w op hw hf
    have hi := World.interrupted hw.consistent.sound hw.consistent.lends.retained op hf
    exact ⟨hi, hi.unharmed⟩
  have hworld : s.world.Reached := ⟨s, hs, rfl⟩
  refine ⟨fun op hf => ?_, fun p hf => ?_⟩
  · obtain ⟨hi, hu⟩ := hinterrupted op hworld hf
    exact ⟨hi, hu, (hworld.operate op).consistent, hworld.operate op⟩
  · obtain ⟨before, c, behind, made, v, v', hcommands, hbefore, hc, hafter⟩ :=
      Script.runAll_eq_error (World.eq_error_of_failure hf)
    have hv : v.Reached := by
      have hplayed := hworld.play before
      rwa [hbefore] at hplayed
    have hplayed : (World.after (p.playback s.world).1).Reached := hworld.play p.commands
    cases ho : c.operation made with
    | error f => simp [Command.run_unresolved ho] at hc
    | ok op =>
      obtain ⟨hrun, hfailure⟩ := Command.run_operation ho v
      rw [hc] at hrun hfailure
      obtain ⟨hi, hu⟩ := hinterrupted op hv hfailure.symm
      refine ⟨before, c, behind, made, v, op, hcommands, hbefore, ho, hfailure.symm, hi, hu, ?_,
        hplayed.consistent, hplayed⟩
      rw [← hrun]
      exact hafter

def brittle : Kind :=
  { name := "Brittle"
    size := 24
    align := 8
    initial := .text ""
    owned := true
    fallible := true }

/-- An entity with a note, in a store where the next default of the other kind cannot be made. -/
def fragile : Session := blank.run
  [.register note .none, .register brittle .none, .operate (.createWith [⟨1⟩]), .fuse (some 0)]

def faltering : Script where
  commands := [.create ⟨[⟨1⟩]⟩, .add (.pending 0) ⟨[⟨2⟩]⟩, .put (.pending 0) note (.text "later")]
  created := 1

/-- The second default fails, so the first is dropped; in the script the second command fails. -/
theorem interrupted_operations_are_unwound_sample :
    (Operation.createWith [⟨1⟩, ⟨2⟩]).failure fragile.world = some .aborted ∧
    ((Operation.createWith [⟨1⟩, ⟨2⟩]).run fragile.world).lifetimes.events =
      fragile.world.lifetimes.events ++ [.made note ⟨.text "", .made 1⟩,
        .dropped note ⟨.text "", .made 1⟩] ∧
    World.Unharmed fragile.world ((Operation.createWith [⟨1⟩, ⟨2⟩]).run fragile.world) ∧
    World.failure (faltering.playback fragile.world).1 = some .aborted ∧
    (World.after (faltering.playback fragile.world).1).Consistent := by
  have hreach : fragile.Strained := strained_blank.run _
  have hcreate : (Operation.createWith [⟨1⟩, ⟨2⟩]).failure fragile.world = some .aborted := by
    decide +kernel
  have hplay : World.failure (faltering.playback fragile.world).1 = some .aborted := by
    decide +kernel
  obtain ⟨hoperations, hscripts⟩ := interrupted_operations_are_unwound hreach
  obtain ⟨-, -, -, -, -, -, -, -, -, -, -, -, -, hconsistent, -⟩ := hscripts faltering hplay
  exact ⟨hcreate, by decide +kernel, (hoperations _ hcreate).2.1, hplay, hconsistent⟩

end Session

end EntityStore
