import Mathlib
import EntityStore.Proofs.Session

/-!
# No archetype without entities

An archetype is opened for an entity that is about to be placed, and given up when its last entity
leaves. Only a default that cannot be made comes in between. In sessions where that never happened
every archetype in use has an entity.
-/
namespace EntityStore

namespace Catalogue
variable {c c' : Catalogue} {id : Nat} {a b : Archetype}

/-- Every archetype in use has an entity. -/
def Occupied (c : Catalogue) : Prop := ∀ id a, c.get? id = some a → a.rows ≠ []

lemma Occupied.update (hc : c.Occupied) (id : Nat) (hb : b.rows ≠ [])
    (hget : c'.get? = Function.update c.get? id (some b)) : c'.Occupied := by
  intro i x hx
  rw [hget] at hx
  by_cases hi : i = id
  · rw [hi, Function.update_self] at hx
    rwa [← Option.some.inj hx]
  · rw [Function.update_of_ne hi] at hx
    exact hc i x hx

/-- An archetype that is about to be given up need not have an entity. -/
lemma occupied_recycle (hp : ∀ a, c.get? id = some a → a.Packed)
    (hc : ∀ i ≠ id, ∀ a, c.get? i = some a → a.rows ≠ []) : (c.recycle id).Occupied := by
  intro i a ha
  rw [get_recycle] at ha
  split_ifs at ha with hempty
  · by_cases hi : i = id
    · rw [hi, Function.update_self] at ha
      cases ha
    · rw [Function.update_of_ne hi] at ha
      exact hc i hi a ha
  · by_cases hi : i = id
    · subst hi
      rw [ha, Option.any_some, (hp a ha).isEmpty] at hempty
      exact hempty
    · exact hc i hi a ha

lemma Occupied.leave (hc : c.Occupied) (ha : c.get? id = some a) (hb : b.Packed) :
    ((c.set id b).recycle id).Occupied := by
  have hget := get_set ha b
  refine occupied_recycle (fun x hx => ?_) fun i hi x hx => ?_
  · rw [hget, Function.update_self] at hx
    rwa [← Option.some.inj hx]
  · rw [hget, Function.update_of_ne hi] at hx
    exact hc i x hx

end Catalogue

namespace World

variable {w v w' : World} {h : Handle} {id : Nat} {ts : List TypeCode} {a b : Archetype}
  {f : Fault} {x : Traffic} {g : List TypeCode → List TypeCode → List TypeCode}

lemma Refused.occupied (hs : w.Sound) (hw : w.catalogue.Occupied) (hr : Refused w f w') :
    w'.catalogue.Occupied := by
  cases hr with
  | types => exact hw
  | @room v id a ho hf =>
    refine Catalogue.occupied_recycle ((ho.sound hs).catalogue.packed _) fun i hi c hc => ?_
    rw [ho.get_eq, Function.update_of_ne hi] at hc
    exact hw i c hc

lemma Filled.occupied (hw : w.catalogue.Occupied) (ho : Opened w v id a)
    (hx : Filled v w' h id a b) : w'.catalogue.Occupied := by
  refine hw.update id (b := b) (by rw [hx.rows]; simp) ?_
  rw [hx.catalogue, Catalogue.get_set hx.found, ho.get_eq, Function.update_idem]

lemma Moved.occupied (hw : w.catalogue.Occupied) (hm : Moved w h ts w') :
    w'.catalogue.Occupied := by
  cases hm with
  | still hl ha hsig => exact hw
  | away ht hx =>
    rw [hx.catalogue]
    exact hw.leave hx.found hx.packed
  | @across l id v _ a a' b b' r d ho hsig hx =>
    -- the target has got an entity by the time the source is given up
    have htarget : (v.catalogue.set id b').Occupied := by
      refine hw.update id (b := b') (by rw [hx.targetRows]; simp) ?_
      rw [Catalogue.get_set hx.target, ho.get_eq, Function.update_idem]
    have hsource : (v.catalogue.set id b').get? l.archetype = some a := by
      rw [Catalogue.get_set hx.target, Function.update_of_ne hx.apart, hx.source]
    rw [hx.catalogue]
    exact htarget.leave hsource hx.sourcePacked

lemma Moving.occupied {r : EStateM.Result Failure World Unit} (hs : w.Sound)
    (hw : w.catalogue.Occupied) (hm : Moving w h ts r) (hr : failure r ≠ some .aborted) :
    (after r).catalogue.Occupied := by
  cases hm with
  | refused hf => exact hf.occupied hs hw
  | stalled ho hsig he hx => exact absurd rfl hr
  | filled ho hsig hx => exact hx.occupied hw ho
  | absent hl ht => exact hw
  | moved hm => exact hm.occupied hw

lemma Retyped.occupied {r : EStateM.Result Failure World Unit} (hs : w.Sound)
    (hw : w.catalogue.Occupied) (hx : Retyped w g h ts r) (hr : failure r ≠ some .aborted) :
    (after r).catalogue.Occupied := by
  cases hx with
  | refused f => exact hw
  | same hv hc hg => exact hw
  | moved hv hc hm => exact hm.occupied hs hw hr

lemma Created.occupied {r : EStateM.Result Failure World Handle} (hs : w.Sound)
    (hw : w.catalogue.Occupied) (hc : Created w ts r) (hr : failure r ≠ some .aborted) :
    (after r).catalogue.Occupied := by
  cases hc with
  | refused f => exact hw
  | bare ha ht => exact hw
  | undone ha hf hfree =>
    have hv := hf.occupied ((Transition.allocated ha).sound hs) hw
    exact hv
  | stalled ha hm => exact absurd rfl hr
  | filled hv ha hm =>
    exact hm.occupied ((Transition.allocated ha).sound hs) hw (by simp)

lemma Destroyed.occupied {r : EStateM.Result Failure World Unit} (hw : w.catalogue.Occupied)
    (hd : Destroyed w h r) : (after r).catalogue.Occupied := by
  cases hd with
  | refused => exact hw
  | bare hl hf => exact hw
  | vacated hx hf =>
    have hv := Moved.occupied hw (.away rfl hx)
    exact hv

/-- Writes keep the handle columns, so they keep the entities. -/
lemma Rewrites.occupied (hw : w.catalogue.Occupied) (hx : Rewrites w x w') :
    w'.catalogue.Occupied := by
  induction hx with
  | refl w => exact hw
  | @step w v w' id a b x y hx _ ih =>
    refine ih (hw.update id (b := b) ?_ ?_)
    · have hrows := hw id a hx.found
      rw [← List.length_pos_iff] at hrows ⊢
      rwa [← List.length_map (f := Row.handle), hx.roster, List.length_map]
    · rw [hx.catalogue, Catalogue.get_set hx.found]

lemma occupied_put {k : Kind} {u : Value} (hs : w.Sound) (hw : w.catalogue.Occupied)
    (hr : failure (put h k u w) ≠ some .aborted) : (after (put h k u w)).catalogue.Occupied := by
  have ha := assigned hs h k u
  unfold put at hr ⊢
  cases hput : assign h k u w with
  | error e v =>
    rw [hput] at hr ha
    cases ha with
    | refused hk => exact hw
    | unchanged hk hx =>
      have hv := hx.occupied ((Transition.registered hk).sound hs) hw hr
      exact hv
  | ok _ v =>
    rw [hput] at ha
    cases ha with
    | @stored t registry v l a b r j old hk hx ht =>
      have hsound := (Transition.registered hk).sound hs
      have hv : v.catalogue.Occupied := hx.occupied hsound hw (by simp)
      have hwritten := ht.written (x := (owned [(k, u)], 0)) (hx.transitions.sound hsound)
        [(k, old)] (by simp [Traffic.entering, Traffic.leaving, add_comm])
      exact hwritten.rewrites.occupied hv

end World

section
open World
variable {w : World}

lemma Operation.occupied (hs : w.Sound) (hw : w.catalogue.Occupied) (op : Operation)
    (hop : op.failure w ≠ some .aborted) : (op.run w).catalogue.Occupied := by
  cases op with
  | create =>
    simp only [run, createEntity]
    cases w.handles.allocate <;> exact hw
  | createWith ts => exact (created hs ts).occupied hs hw hop
  | add h ts => exact (retyped hs _ h ts).occupied hs hw hop
  | remove h ts => exact (retyped hs _ h ts).occupied hs hw hop
  | put h k v => exact occupied_put hs hw hop
  | destroy h => exact (destroyed hs h).occupied hw

lemma Command.occupied (hs : w.Sound) (hw : w.catalogue.Occupied) (made : List Handle)
    (c : Command) (hc : failure (c.run made w) ≠ some .aborted) :
    (after (c.run made w)).catalogue.Occupied := by
  cases ho : c.operation made with
  | error f =>
    rw [run_unresolved ho]
    exact hw
  | ok op =>
    obtain ⟨hrun, hfailure⟩ := run_operation ho w
    rw [hfailure] at hc
    rw [hrun]
    exact op.occupied hs hw hc

lemma Script.occupied (hs : w.Sound) (hw : w.catalogue.Occupied) (cs : List Command)
    (made : List Handle) (hc : failure (runAll cs made w) ≠ some .aborted) :
    (after (runAll cs made w)).catalogue.Occupied := by
  induction cs generalizing w made with
  | nil => exact hw
  | cons c cs ih =>
    have hfirst := c.occupied hs hw made
    have hsound := (c.transitions hs made).sound hs
    simp only [runAll] at hc ⊢
    cases hr : c.run made w with
    | ok made' v =>
      rw [hr] at hc hfirst hsound
      exact ih hsound (hfirst (by simp)) made' hc
    | error e v =>
      rw [hr] at hc hfirst
      exact hfirst hc

end

namespace Session
variable {s : Session}

/-- Sessions in which no operation and no script was ever cut short by a default that could not be
made. -/
inductive Calm : Session → Prop
  | create {w : World} (hw : w.New) : Calm { world := w }
  | move {s : Session} (hs : Calm s) (m : Move) (hm : s.failure m ≠ some .aborted) :
      Calm (s.move m)

lemma Calm.strained (hs : s.Calm) : s.Strained := by
  induction hs with
  | create hw => exact .create hw
  | move _ m _ ih => exact ih.move m

def isUndisturbed (s : Session) : List Move → Bool
  | [] => true
  | m :: ms => s.failure m != some .aborted && (s.move m).isUndisturbed ms

lemma Calm.run (hs : s.Calm) {ms : List Move} (h : s.isUndisturbed ms = true) :
    (s.run ms).Calm := by
  induction ms generalizing s with
  | nil => exact hs
  | cons m ms ih =>
    obtain ⟨hfirst, hrest⟩ := Bool.and_eq_true_iff.mp h
    exact ih (hs.move m (by simpa using hfirst)) hrest

lemma occupied_move (hs : s.world.Sound) (hw : s.world.catalogue.Occupied) (m : Move)
    (hm : s.failure m ≠ some .aborted) : (s.move m).world.catalogue.Occupied := by
  cases m with
  | operate op => exact op.occupied hs hw hm
  | write m => exact (m.rewrites hs).occupied hw
  | register k m =>
    simp only [move]
    cases s.world.registry.register k m <;> exact hw
  | bump => exact hw
  | flush => exact hw
  | fuse n => exact hw
  | memory n => exact hw
  | newScript => exact hw
  | record i c =>
    simp only [move]
    cases s.scripts[i]? <;> exact hw
  | append i j =>
    simp only [move]
    cases s.scripts[i]? <;> cases s.scripts[j]? <;> (try split_ifs) <;> exact hw
  | discard i =>
    simp only [move]
    cases s.scripts[i]? <;> exact hw
  | play i =>
    simp only [move, failure] at hm ⊢
    cases hp : s.scripts[i]? with
    | none => exact hw
    | some p =>
      rw [hp] at hm
      exact Script.occupied hs hw p.commands [] hm

/-- In a calm session every archetype in use has an entity. -/
theorem Calm.occupied (hs : s.Calm) : s.world.catalogue.Occupied := by
  induction hs with
  | create hw =>
    obtain ⟨_, _, _, _, _, -, rfl⟩ := hw.eq
    intro id a ha
    simp [Catalogue.new, Catalogue.get?] at ha
  | move hs m hm ih => exact occupied_move hs.strained.invariant.sound ih m hm

lemma calm_blank : blank.Calm := .create new_blank

lemma calm_sample : sample.Calm := calm_blank.run (by decide +kernel)

end Session

end EntityStore
