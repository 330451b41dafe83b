import Mathlib
import EntityStore.Script.Playback
import EntityStore.Proofs.Operations

/-!
# Playing scripts

A command does to a store what its operation does, and a playback what its commands do up to the
first that fails. Every value that the commands held has been handed to the store by then, or was
dropped.
-/
namespace EntityStore

open World

inductive Operation
  | create
  | createWith (types : List TypeCode)
  | add (handle : Handle) (types : List TypeCode)
  | remove (handle : Handle) (types : List TypeCode)
  | put (handle : Handle) (kind : Kind) (value : Value)
  | destroy (handle : Handle)
  deriving DecidableEq, Repr

namespace Operation

def run (w : World) : Operation → World
  | create => after (createEntity w)
  | createWith ts => after (World.createWith ts w)
  | add h ts => after (addComponents h ts w)
  | remove h ts => after (removeComponents h ts w)
  | put h k v => after (World.put h k v w)
  | destroy h => after (World.destroy h w)

def failure (w : World) : Operation → Option Failure
  | create => World.failure (createEntity w)
  | createWith ts => World.failure (World.createWith ts w)
  | add h ts => World.failure (addComponents h ts w)
  | remove h ts => World.failure (removeComponents h ts w)
  | put h k v => World.failure (World.put h k v w)
  | destroy h => World.failure (World.destroy h w)

def traffic : Operation → Traffic
  | put _ k v => (owned [(k, v)], 0)
  | _ => 0

variable {w : World}

lemma transitions_create (w : World) : Transitions w 0 (after (createEntity w)) := by
  unfold createEntity
  cases ha : w.handles.allocate with
  | error f => exact .refl w
  | ok ht => exact (Transition.allocated ha).single

theorem transitions (hs : w.Sound) (op : Operation) : Transitions w op.traffic (op.run w) := by
  cases op with
  | create => exact transitions_create w
  | createWith ts => exact (created hs ts).transitions
  | add h ts => exact (retyped hs _ h ts).transitions
  | remove h ts => exact (retyped hs _ h ts).transitions
  | put h k v => exact transitions_put hs h k v
  | destroy h => exact (destroyed hs h).transitions

end Operation

section
variable {w : World} {α β : Type}

lemma after_answering (b : β) (s : Step α) : after (Step.answering b s w) = after (s w) := by
  unfold Step.answering
  cases s w <;> rfl

lemma failure_answering (b : β) (s : Step α) :
    failure (Step.answering b s w) = failure (s w) := by
  unfold Step.answering
  cases s w <;> rfl

/-- The operation that a command stands for once its target is known. -/
def Command.operation (made : List Handle) : Command → Except Fault Operation
  | create s => .ok (.createWith s.codes)
  | destroy t => (t.resolve made).map .destroy
  | add t s => (t.resolve made).map fun h => .add h s.codes
  | remove t s => (t.resolve made).map fun h => .remove h s.codes
  | put t k v => (t.resolve made).map fun h => .put h k v

variable {made : List Handle} {c : Command} {op : Operation} {f : Fault}

lemma Command.operation_traffic (ho : c.operation made = .ok op) :
    op.traffic = (owned c.held.toList, 0) := by
  cases c with
  | create s =>
    obtain rfl := Except.ok.inj ho
    rfl
  | destroy t | add t s | remove t s | put t k v =>
    obtain ⟨h, -, rfl⟩ := ok_of_map ho
    rfl

/-- A command that has a target does what its operation does. -/
theorem Command.run_operation (ho : c.operation made = .ok op) (w : World) :
    after (c.run made w) = op.run w ∧ World.failure (c.run made w) = op.failure w := by
  cases c with
  | create s =>
    obtain rfl := Except.ok.inj ho
    simp only [run, Operation.run, Operation.failure]
    cases World.createWith s.codes w <;> exact ⟨rfl, rfl⟩
  | destroy t | add t s | remove t s | put t k v =>
    obtain ⟨h, hr, rfl⟩ := ok_of_map ho
    simp only [run, hr]
    exact ⟨after_answering made _, failure_answering made _⟩

lemma Step.map_apply (f : α → β) (s : Step α) (w : World) : (f <$> s) w =
    match s w with
    | .ok a w => .ok (f a) w
    | .error e w => .error e w := by
  simp only [Functor.map, EStateM.map]
  cases s w <;> rfl

lemma after_map (f : α → β) (s : Step α) : after ((f <$> s) w) = after (s w) := by
  rw [Step.map_apply]
  cases s w <;> rfl

/-- The operation itself, with the handle of a new entity for an answer. -/
def Operation.call : Operation → Step (Option Handle)
  | create => some <$> createEntity
  | createWith ts => some <$> World.createWith ts
  | add h ts => .answering none (addComponents h ts)
  | remove h ts => .answering none (removeComponents h ts)
  | put h k v => .answering none (World.put h k v)
  | destroy h => .answering none (World.destroy h)

lemma Operation.after_call (op : Operation) (w : World) : after (op.call w) = op.run w := by
  cases op with
  | create | createWith ts => exact after_map some _
  | add h ts | remove h ts | put h k v | destroy h => exact after_answering none _

/-- A command that has a target calls its operation, and a new handle is added to the others. -/
theorem Command.run_call (ho : c.operation made = .ok op) (w : World) :
    c.run made w = ((fun h : Option Handle => made ++ h.toList) <$> op.call) w := by
  cases c with
  | create s =>
    obtain rfl := Except.ok.inj ho
    simp only [run, Operation.call, Step.map_apply]
    cases World.createWith s.codes w <;> rfl
  | destroy t | add t s | remove t s | put t k v =>
    obtain ⟨h, hr, rfl⟩ := ok_of_map ho
    simp only [run, hr, Operation.call, Step.map_apply, Step.answering]
    split <;> simp_all

/-- A command that has none is refused, and its value is given up. -/
theorem Command.run_unresolved (ho : c.operation made = .error f) (w : World) :
    c.run made w =
      .error (.refused f) { w with lifetimes := w.lifetimes.dropAll c.held.toList } := by
  cases c with
  | create s => simp [operation] at ho
  | destroy t | add t s | remove t s | put t k v =>
    simp only [run, error_of_map ho]
    rfl

lemma transitions_dropAll (w : World) (vs : List (Kind × Value)) :
    Transitions w (owned vs, 0) { w with lifetimes := w.lifetimes.dropAll vs } := by
  induction vs generalizing w with
  | nil => exact .refl w
  | cons kv vs ih =>
    have hsplit : ((owned (kv :: vs), 0) : Traffic) = (owned [kv], 0) + (owned vs, 0) := by
      rw [owned_cons, Prod.mk_add_mk, add_zero]
    rw [hsplit]
    exact .step (.returned w kv.1 kv.2) (ih _)

theorem Command.transitions (hs : w.Sound) (made : List Handle) (c : Command) :
    Transitions w (owned c.held.toList, 0) (after (c.run made w)) := by
  cases ho : c.operation made with
  | error f =>
    rw [run_unresolved ho]
    exact transitions_dropAll w c.held.toList
  | ok op =>
    rw [(run_operation ho w).1, ← operation_traffic ho]
    exact op.transitions hs

/-- A script that fails carried out its commands up to one that failed. -/
lemma Script.runAll_eq_error {cs : List Command} {e : Failure} {w' : World}
    (hr : runAll cs made w = .error e w') : ∃ before c behind made' v v',
      cs = before ++ c :: behind ∧ runAll before made w = .ok made' v ∧
        c.run made' v = .error e v' ∧
        w' = { v' with lifetimes := v'.lifetimes.dropAll (held behind) } := by
  induction cs generalizing made w with
  | nil => simp [runAll] at hr
  | cons c cs ih =>
    simp only [runAll] at hr
    cases hc : c.run made w with
    | ok made' v =>
      obtain ⟨before, d, behind, made'', u, u', rfl, hbefore, hrest⟩ := ih (by simpa [hc] using hr)
      refine ⟨c :: before, d, behind, made'', u, u', rfl, ?_, hrest⟩
      simp only [runAll, hc, hbefore]
    | error e v =>
      simp only [hc, EStateM.Result.error.injEq] at hr
      obtain ⟨rfl, rfl⟩ := hr
      exact ⟨[], c, cs, made, w, v, rfl, rfl, hc, rfl⟩

lemma Script.held_cons (c : Command) (cs : List Command) :
    owned (held (c :: cs)) = owned c.held.toList + owned (held cs) := by
  rw [held, List.filterMap_cons, held]
  cases hc : c.held with
  | none => simp
  | some kv => exact owned_cons kv _

theorem Script.transitions (hs : w.Sound) (cs : List Command) (made : List Handle) :
    Transitions w (owned (held cs), 0) (after (runAll cs made w)) := by
  induction cs generalizing w made with
  | nil => exact .refl w
  | cons c cs ih =>
    have hc := c.transitions hs made
    have hsplit : ((owned (held (c :: cs)), 0) : Traffic) =
        (owned c.held.toList, 0) + (owned (held cs), 0) := by
      rw [held_cons, Prod.mk_add_mk, add_zero]
    rw [hsplit]
    simp only [runAll]
    cases hr : c.run made w with
    | ok made' v =>
      rw [hr] at hc
      exact hc.trans (ih (hc.sound hs) made')
    | error e v =>
      rw [hr] at hc
      exact hc.trans (transitions_dropAll v (held cs))

end

end EntityStore
