import Mathlib
import EntityStore.Proofs.Agreement
import EntityStore.Proofs.Session

/-!
# Tuning

Callers cannot tell how a store was tuned, as long as it does not run short: the same requests to
two stores over the same registry get the same replies, and what they have stored is in the same
archetypes in the same order. Chunks are of different size, indexes grow at different times, and a
chunk may be a released one in one store and a new one in the other; none of it shows.
-/
namespace EntityStore

inductive Registry.Built : Registry → Prop
  | new (name : String) (maxTypes : Nat) : Built (Registry.new name maxTypes)
  | register {r r' : Registry} {k : Kind} {m : Markers} {t : TypeCode} (hr : Built r)
      (hk : r.register k m = .ok (t, r')) : Built r'

lemma Registry.Built.valid {r : Registry} (hr : r.Built) : r.Valid := by
  induction hr with
  | new name maxTypes => exact Registry.valid_new name maxTypes
  | register _ hk ih => exact (Registry.register_spec ih hk).1

/-- The answer to a question, which changes nothing. -/
def Step.ask {α : Type} (question : World → Except Fault α) : Step α := fun w =>
  match question w with
  | .ok answer => .ok answer w
  | .error f => .error (.refused f) w

/-- The playback of a script, less the script that is left of it. -/
def Script.play (p : Script) : Step (List Handle) := fun w => (p.playback w).1

/-- What callers may ask of a store. -/
inductive Request
  | operate (op : Operation)
  | exchange (handle : Handle) (kind : Kind) (value : Value)
  | register (kind : Kind) (markers : Markers)
  | fuse (left : Option Nat)
  | play (script : Script)
  | get (handle : Handle) (kind : Kind)
  | types (handle : Handle)
  | has (handle : Handle) (code : TypeCode)
  | hasAll (handle : Handle) (codes : List TypeCode)
  | archetypeOf (handle : Handle)
  | matching (codes excluded : List TypeCode)

/-- What a request that succeeds is answered. -/
inductive Reply
  | done
  | created (handle : Option Handle)
  | played (handles : List Handle)
  | value (value : Option Value)
  | code (code : TypeCode)
  | types (codes : List TypeCode)
  | truth (holds : Bool)
  | number (archetype : Option Nat)
  | archetypes (outlines : List Outline)
  deriving DecidableEq, Repr

namespace Request

open World

def serve : Request → Step Reply
  | operate op => Reply.created <$> op.call
  | exchange h k v => Reply.value <$> World.exchange h k v
  | register k m => fun w =>
      match w.registry.register k m with
      | .error f => .error (.refused f) w
      | .ok (t, registry) => .ok (.code t) { w with registry }
  | fuse n => fun w => .ok .done { w with lifetimes := { w.lifetimes with fuse := n } }
  | play p => Reply.played <$> p.play
  | get h k => Reply.value <$> .ask fun w => w.get h k
  | types h => Reply.types <$> .ask fun w => w.typesOf h
  | has h t => Reply.truth <$> .ask fun w => w.hasComponent h t
  | hasAll h ts => Reply.truth <$> .ask fun w => w.hasComponents h ts
  | archetypeOf h => Reply.number <$> .ask fun w => w.archetypeOf h
  | matching ts excluded => Reply.archetypes <$> .ask fun w =>
      (w.matching ts excluded).map (List.map Archetype.outline)

def reply : EStateM.Result Failure World Reply → Except Failure Reply
  | .ok answer _ => .ok answer
  | .error e _ => .error e

/-- Requests are served one after the other, also behind those that fail. -/
def serveAll : List Request → World → List (Except Failure Reply) × World
  | [], w => ([], w)
  | r :: rs, w =>
      let (replies, w') := serveAll rs (after (r.serve w))
      (reply (r.serve w) :: replies, w')

/-- The request failed for want of room. -/
def isShort : Except Failure Reply → Bool
  | .error (.refused f) => f.isShortage
  | _ => false

variable {w v : World} {α β : Type}

lemma sound_ask (hw : w.Sound) (g : α → β) (q : World → Except Fault α) :
    (after ((g <$> Step.ask q) w)).Sound := by
  rw [after_map, Step.ask]
  cases q w <;> exact hw

lemma sound_serve (hw : w.Sound) (r : Request) : (after (r.serve w)).Sound := by
  cases r with
  | operate op =>
    rw [serve, after_map, Operation.after_call]
    exact (op.transitions hw).sound hw
  | exchange h k x =>
    rw [serve, after_map]
    exact ((Write.exchange h k x).rewrites hw).transitions.sound hw
  | register k m =>
    simp only [serve]
    cases hk : w.registry.register k m with
    | error f => exact hw
    | ok tr => exact (Transition.registered hk).sound hw
  | fuse n =>
    have hidle : Idle w { w with lifetimes := { w.lifetimes with fuse := n } } :=
      ⟨rfl, rfl, rfl, rfl, rfl, rfl, .inl rfl⟩
    exact (Transition.idle hidle).sound hw
  | play p =>
    rw [serve, after_map]
    exact (Script.transitions hw p.commands []).sound hw
  | get | types | has | hasAll | archetypeOf | matching =>
    rw [serve]
    exact sound_ask hw _ _

section Pair
variable (hw : w.Sound) (hv : v.Sound) (hwv : Alike w v)
include hwv

lemma agree_ask (g : α → β) {q : World → Except Fault α} (hq : q w = q v) :
    Agree ((g <$> Step.ask q) w) ((g <$> Step.ask q) v) := by
  refine Agree.map g ?_
  rw [Step.ask, Step.ask, hq]
  cases q v with
  | error f => exact .error hwv
  | ok a => exact .ok hwv

include hw hv

/-- A request ends in the same way in stores that are alike. -/
lemma agree_serve (r : Request) : Agree (r.serve w) (r.serve v) := by
  cases r with
  | operate op => exact (op.agree_call hw hv hwv).map _
  | exchange h k x => exact (agree_exchange hw hv hwv k x).map _
  | register k m =>
    simp only [serve, hwv.registry]
    cases v.registry.register k m with
    | error f => exact .error hwv
    | ok tr => exact .ok ⟨rfl, hwv.lifetimes, hwv.handles, hwv.catalogue⟩
  | fuse n => exact .ok ⟨hwv.registry, by rw [hwv.lifetimes], hwv.handles, hwv.catalogue⟩
  | play p => exact Agree.map _ (Script.agree_runAll hw hv hwv p.commands [])
  | get h k => exact agree_ask hwv _ (get_of_alike hw hv hwv k)
  | types h => exact agree_ask hwv _ (typesOf_of_alike hwv)
  | has h t => exact agree_ask hwv _ (hasComponent_of_alike hwv t)
  | hasAll h ts => exact agree_ask hwv _ (hasComponents_of_alike hwv)
  | archetypeOf h => exact agree_ask hwv _ (archetypeOf_of_alike hwv)
  | matching ts excluded => exact agree_ask hwv _ (matching_of_alike hwv ts excluded)

end Pair

lemma alike_of_agree {x y : EStateM.Result Failure World Reply} (hxy : Agree x y)
    (hx : isShort (reply x) = false) (hy : isShort (reply y) = false) :
    reply x = reply y ∧ Alike (after x) (after y) := by
  cases hxy with
  | ok h => exact ⟨rfl, h⟩
  | error h => exact ⟨rfl, h⟩
  | short_left hf => simp [reply, isShort, hf] at hx
  | short_right hf => simp [reply, isShort, hf] at hy

/-- Stores that are alike give the same replies and stay alike, request by request. -/
lemma serveAll_of_alike (hw : w.Sound) (hv : v.Sound) (hwv : Alike w v) (rs : List Request)
    (hwr : ∀ x ∈ (serveAll rs w).1, isShort x = false)
    (hvr : ∀ x ∈ (serveAll rs v).1, isShort x = false) :
    (serveAll rs w).1 = (serveAll rs v).1 ∧ Alike (serveAll rs w).2 (serveAll rs v).2 := by
  induction rs generalizing w v with
  | nil => exact ⟨rfl, hwv⟩
  | cons r rs ih =>
    simp only [serveAll, List.forall_mem_cons] at hwr hvr ⊢
    obtain ⟨hreply, hnext⟩ := alike_of_agree (r.agree_serve hw hv hwv) hwr.1 hvr.1
    obtain ⟨hreplies, hend⟩ := ih (sound_serve hw r) (sound_serve hv r) hnext hwr.2 hvr.2
    exact ⟨by rw [hreply, hreplies], hend⟩

/-- The same requests to two stores that are tuned differently, with different memory and a
different hash, get the same replies if neither runs short of room, and then the stores hold the
same in every archetype, in the same order. -/
theorem results_do_not_depend_on_tuning {registry : Registry} {s t : Settings} {w v : World}
    {m n : Option Nat} {f g : List TypeCode → Nat} (hr : registry.Built) (hs : s.Tuned)
    (ht : t.Tuned) (hw : World.create registry s m f = .ok w)
    (hv : World.create registry t n g = .ok v) (rs : List Request)
    (hwr : ∀ x ∈ (serveAll rs w).1, isShort x = false)
    (hvr : ∀ x ∈ (serveAll rs v).1, isShort x = false) :
    (serveAll rs w).1 = (serveAll rs v).1 ∧
    (serveAll rs w).2.catalogue.archetypes.map Archetype.outline =
      (serveAll rs v).2.catalogue.archetypes.map Archetype.outline ∧
    ∀ id, ((serveAll rs w).2.catalogue.get? id).map Archetype.outline =
      ((serveAll rs v).2.catalogue.get? id).map Archetype.outline := by
  have hnew : Alike w v := by
    rw [World.create_eq_ok hw, World.create_eq_ok hv]
    exact ⟨rfl, rfl, rfl, Catalogue.alike_new _ _ _ _⟩
  obtain ⟨hreplies, hend⟩ := serveAll_of_alike (World.sound_create hr.valid hs hw)
    (World.sound_create hr.valid ht hv) hnew rs hwr hvr
  exact ⟨hreplies, hend.catalogue.archetypes_eq, hend.catalogue.get?_eq⟩

/-- Few small chunks, one of which is kept for reuse, and a small index. -/
def cramped : Settings :=
  ((((({} : Settings).withChunkSize 256).withMaxTypes 4).withMaxChunks 2).withRetained
    1).withIndexMin 4

/-- The sixth entity is destroyed, and with small chunks its chunk is released. What takes its place
does not get its note. -/
def chores : List Request :=
  .register Session.note .none :: List.replicate 6 (.operate (.createWith [⟨1⟩])) ++
    [.operate (.put ⟨5, 1⟩ Session.note (.text "gone")), .operate (.destroy ⟨5, 1⟩),
      .get ⟨5, 1⟩ Session.note, .operate (.createWith [⟨1⟩]), .get ⟨5, 2⟩ Session.note,
      .matching [⟨1⟩] [], .play ⟨[.create ⟨[⟨1⟩]⟩, .destroy (.pending 0)], 1⟩]

/-- A poor hash: all lists of types collide. -/
def colliding : List TypeCode → Nat := fun _ => 0

/-- One store needs two chunks for it and the other only one. -/
theorem results_do_not_depend_on_tuning_sample : ∃ w v,
    World.create (Registry.new "Handle") {} = .ok w ∧
    World.create (Registry.new "Handle") cramped none colliding = .ok v ∧
    (∀ x ∈ (serveAll chores w).1, isShort x = false) ∧
    (∀ x ∈ (serveAll chores v).1, isShort x = false) ∧
    (serveAll chores w).2.pool.allocated = 1 ∧ (serveAll chores v).2.pool.allocated = 2 ∧
    (serveAll chores w).1 = (serveAll chores v).1 := by
  let w : World := Session.blank.world
  let v : World :=
    { registry := Registry.new "Handle", settings := cramped
      pool := { chunkSize := 256, retain := 1 }, catalogue := Catalogue.new 4 colliding }
  have hw : ∀ x ∈ (serveAll chores w).1, isShort x = false := by decide +kernel
  have hv : ∀ x ∈ (serveAll chores v).1, isShort x = false := by decide +kernel
  have htuned : cramped.Tuned :=
    .indexMin (.retained (.maxChunks (.maxTypes (.chunkSize .standard 256 (by decide)) 4) 2) 1) 4
      (by decide)
  refine ⟨w, v, rfl, rfl, hw, hv, by decide +kernel, by decide +kernel, ?_⟩
  exact (results_do_not_depend_on_tuning (.new "Handle" _) .standard htuned rfl rfl chores hw hv).1

end Request

end EntityStore
