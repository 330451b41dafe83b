import Mathlib
import EntityStore.Proofs.Buffers
import EntityStore.Proofs.InternalFaults
import EntityStore.Proofs.StoreAccesses

/-!
# Nothing goes out of bounds

Whatever callers do with a store, with arguments of any kind and with memory that runs out at any
time, no access is out of bounds, no counter goes below zero, and no request is refused for a fault
of the store itself. The only interruptions are those of defaults that cannot be made.
-/
namespace EntityStore

open Access

namespace Operation

def accesses (w : World) : Operation → List Access
  | create => w.handles.allocateAccesses
  | createWith ts => w.createWithAccesses ts
  | add h ts => w.addAccesses h ts
  | remove h ts => w.removeAccesses h ts
  | put h k _ => w.putAccesses h k
  | destroy h => w.destroyAccesses h

end Operation

/-- The commands of a script up to the first that fails. -/
def Script.accesses : List Command → List Handle → World → List Access
  | [], _, _ => []
  | c :: cs, made, w =>
      match c.operation made with
      | .error _ => []
      | .ok op =>
          op.accesses w ++
            match c.run made w with
            | .ok made v => accesses cs made v
            | .error _ _ => []

/-- Whether an archetype has some types, lacks them, and where their columns are. -/
def Archetype.queryAccesses (a : Archetype) (ts : List TypeCode) : List Access :=
  Ascending.scanAccesses false a.codes ts ++ Ascending.mergeAccesses false a.codes ts

def World.viewAccesses (w : World) (id chunk : Nat) : List Access :=
  match w.view? id chunk with
  | none => []
  | some (_, v) => v.accesses w.settings.bufferSize

def Archetype.viewsAccesses (a : Archetype) (room : Nat) : List Access :=
  a.views.flatMap fun v => v.accesses room

def Write.accesses (w : World) : Write → List Access
  | component h t _ => w.componentAccesses h t
  | exchange h k _ => w.exchangeAccesses h k
  | bytes id chunk _ _ | column id chunk _ _ _ | borrow id chunk _ => w.viewAccesses id chunk
  | columns id _ _ _ =>
      match w.catalogue.get? id with
      | none => []
      | some a => a.viewsAccesses w.settings.bufferSize

namespace World

/-- Everything that there is to read: the types, the entities and the chunks of all archetypes. The
space of a chunk is what its header leaves. -/
def readAccesses (w : World) : List Access :=
  lower w.settings.chunkSize Settings.headerSize ::
    w.catalogue.archetypes.flatMap fun a =>
      Catalogue.typesAccess a ::
        (List.range a.count).flatMap (a.rowAccesses w.settings.bufferSize) ++
          a.viewsAccesses w.settings.bufferSize

def closeAccesses (w : World) : List Access :=
  w.catalogue.archetypes.flatMap (Archetype.dropAccesses · w.settings.bufferSize) ++
    w.pool.giveManyAccesses (w.catalogue.total fun a => a.chunks.length) ++
    w.close.2.flushAccesses

variable {w v : World} {h : Handle} {t : TypeCode} {a : Archetype} {op : Operation} {f : Fault}

namespace Healthy
variable (hw : w.Healthy)
include hw

theorem safe_operation (op : Operation) : Safe (op.accesses w) := by
  cases op with
  | create => exact hw.safe_allocate
  | createWith ts => exact hw.safe_createWith ts
  | add h ts => exact hw.safe_add h ts
  | remove h ts => exact hw.safe_remove h ts
  | put h k x => exact hw.safe_put h k
  | destroy h => exact hw.safe_destroy h

theorem safe_script (cs : List Command) (made : List Handle) :
    Safe (Script.accesses cs made w) := by
  induction cs generalizing w made with
  | nil => exact safe_nil
  | cons c cs ih =>
    have hnext := hw.command made c
    unfold Script.accesses
    cases c.operation made with
    | error f => exact safe_nil
    | ok op =>
      refine safe_append.mpr ⟨hw.safe_operation op, ?_⟩
      cases hr : c.run made w with
      | error => exact safe_nil
      | ok made' v =>
        rw [hr] at hnext
        exact ih hnext made'

lemma safe_view (id chunk : Nat) : Safe (w.viewAccesses id chunk) := by
  unfold viewAccesses
  split
  next => exact safe_nil
  next a v hv =>
    obtain ⟨ha, -, hl⟩ := view_eq_some hv
    exact (hw.sound.fits hv).safe_accesses (hl ▸ hw.stocked.fits ha)

lemma safe_views {id : Nat} (ha : w.catalogue.get? id = some a) :
    Safe (a.viewsAccesses w.settings.bufferSize) := by
  refine safe_flatMap.mpr fun v hv => ?_
  obtain ⟨c, hc, rfl⟩ := List.mem_map.mp hv
  obtain ⟨k, hk⟩ := List.mem_iff_getElem?.mp hc
  have hview : w.view? id k = some (a, ⟨a.layout, c⟩) := by
    simp [view?, ha, Archetype.view?, hk]
  exact (hw.sound.fits hview).safe_accesses (hw.stocked.fits ha)

theorem safe_write (m : Write) : Safe (m.accesses w) := by
  cases m with
  | component h t g => exact hw.safe_component h t
  | exchange h k x => exact hw.safe_exchange h k
  | bytes id chunk | column id chunk | borrow id chunk => exact hw.safe_view id chunk
  | columns id k t e =>
    unfold Write.accesses
    dsimp only
    cases ha : w.catalogue.get? id with
    | none => exact safe_nil
    | some a => exact hw.safe_views ha

theorem safe_read : Safe w.readAccesses := by
  refine safe_cons.mpr ⟨hw.tuned.headerSize_le, safe_flatMap.mpr fun a hmem => ?_⟩
  obtain ⟨id, ha⟩ := Catalogue.mem_archetypes.mp hmem
  have hrows : ∀ i ∈ List.range a.count, Safe (a.rowAccesses w.settings.bufferSize i) := by
    intro i hi
    exact (hw.stocked.packed ha).safe_row (hw.stocked.fits ha) (List.mem_range.mp hi)
  refine safe_append.mpr ⟨?_, hw.safe_views ha⟩
  exact safe_cons.mpr ⟨hw.consistent.tidy.typesAccess ha, safe_flatMap.mpr hrows⟩

theorem safe_close : Safe w.closeAccesses := by
  have hlends := hw.consistent.lends
  have hresting : w.close.2.Lends 0 := Pool.Lends.foldl (by rwa [Nat.zero_add])
  refine safe_append.mpr ⟨safe_append.mpr ⟨?_, hlends.safe_giveMany⟩, hresting.safe_flush⟩
  refine safe_flatMap.mpr fun a hmem => ?_
  obtain ⟨id, ha⟩ := Catalogue.mem_archetypes.mp hmem
  exact (hw.stocked.packed ha).safe_drop (hw.stocked.fits ha)

theorem safe_flush : Safe w.pool.flushAccesses := hw.consistent.lends.safe_flush

lemma interrupted_operation (hf : op.failure w = some .aborted) : Interrupted w op (op.run w) :=
  interrupted hw.sound hw.consistent.lends.retained op hf

lemma script {cs : List Command} {made made' : List Handle}
    (hr : Script.runAll cs made w = .ok made' v) : v.Healthy := by
  induction cs generalizing w made with
  | nil =>
    obtain rfl := (EStateM.Result.ok.inj hr).2
    exact hw
  | cons c cs ih =>
    have hnext := hw.command made c
    simp only [Script.runAll] at hr
    cases hc : c.run made w with
    | error e u => simp [hc] at hr
    | ok made₁ u =>
      rw [hc] at hnext
      simp only [hc] at hr
      exact ih hnext hr

end Healthy

end World

lemma Operation.failure_call (op : Operation) (w : World) :
    World.failure (op.call w) = op.failure w := by
  cases op with
  | create | createWith ts => exact World.failure_map some _ w
  | add h ts | remove h ts | put h k x | destroy h => exact failure_answering none _

/-- A default that one of the commands needs could not be made, and those before were carried
out. -/
def Script.Interrupted (cs : List Command) (made : List Handle) (w : World) : Prop :=
  ∃ before c behind made' v op, cs = before ++ c :: behind ∧
    runAll before made w = .ok made' v ∧ Command.operation made' c = .ok op ∧
    World.Interrupted v op (op.run v)

inductive Request.Interrupted (w : World) : Request → Prop
  | operate {op : Operation} (hi : World.Interrupted w op (op.run w)) : Interrupted w (.operate op)
  | play {p : Script} (hi : Script.Interrupted p.commands [] w) : Interrupted w (.play p)

namespace World
variable {w v : World} {h : Handle} {k : Kind} {t : TypeCode} {f : Fault}

lemma not_aborted_modifyComponent {g : Value → Value} :
    failure (modifyComponent h t g w) ≠ some .aborted := by
  intro hf
  unfold modifyComponent at hf
  repeat' split at hf
  all_goals cases hf

lemma not_aborted_exchange {x : Value} : failure (exchange h k x w) ≠ some .aborted := by
  intro hf
  unfold exchange at hf
  split at hf
  next => split at hf <;> cases hf
  next t _ =>
    have hmodify := not_aborted_modifyComponent (h := h) (t := t) (g := fun _ => x) (w := w)
    split at hf
    next e u hr =>
      rw [hr] at hmodify
      exact hmodify hf
    all_goals cases hf

lemma not_aborted_ask {α β : Type} {g : α → β} {question : World → Except Fault α} :
    failure ((g <$> Step.ask question) w) ≠ some .aborted := by
  rw [failure_map, Step.ask]
  cases question w <;> simp [failure]

namespace Healthy
variable (hw : w.Healthy)
include hw

theorem interrupted_script {cs : List Command} {made : List Handle}
    (hf : failure (Script.runAll cs made w) = some .aborted) : Script.Interrupted cs made w := by
  obtain ⟨before, c, behind, made', v, u, hcommands, hbefore, hc, -⟩ :=
    Script.runAll_eq_error (eq_error_of_failure hf)
  cases ho : c.operation made' with
  | error g => simp [Command.run_unresolved ho] at hc
  | ok op =>
    have hfailure := (Command.run_operation ho v).2
    rw [hc] at hfailure
    exact ⟨before, c, behind, made', v, op, hcommands, hbefore, ho,
      (hw.script hbefore).interrupted_operation hfailure.symm⟩

/-- Nothing but a default that cannot be made interrupts a request. -/
theorem interrupted_request {r : Request} (hf : failure (r.serve w) = some .aborted) :
    r.Interrupted w := by
  cases r with
  | operate op =>
    rw [Request.serve, failure_map, op.failure_call] at hf
    exact .operate (hw.interrupted_operation hf)
  | play p =>
    rw [Request.serve, failure_map] at hf
    exact .play (hw.interrupted_script hf)
  | exchange h k x =>
    rw [Request.serve, failure_map] at hf
    exact absurd hf not_aborted_exchange
  | register k m =>
    unfold Request.serve at hf
    dsimp only at hf
    split at hf <;> cases hf
  | fuse n => cases hf
  | get | types | has | hasAll | archetypeOf | matching => exact absurd hf not_aborted_ask

end Healthy

end World

lemma View.Fits.column_error {v : View} (h : v.Fits) {j : Nat} {f : Fault}
    (hc : v.column j = .error f) :
    f = .outOfRange .component j v.layout.columns.length ∧ v.layout.columns.length ≤ j := by
  have hrange := error_of_map hc
  by_cases hj : j < v.layout.columns.length
  · obtain ⟨k, hk⟩ := Layout.exists_kind hj
    rw [Layout.columnRange_eq (Layout.sizes_of_kinds hk) h.room] at hrange
    cases hrange
  · have hnone : v.layout.offsets[j]? = none := by
      simpa [Layout.offsets, Layout.sizes, Layout.kinds] using hj
    simp only [Layout.columnRange, hnone] at hrange
    exact ⟨(Except.error.inj hrange).symm, not_lt.mp hj⟩

/-- Whatever is done with the store next: accesses are safe, faults are not those of the store, and
interruptions are those of defaults. -/
structure World.Guarded (w : World) : Prop where
  operations : ∀ op : Operation, Safe (op.accesses w)
  scripts : ∀ cs made, Safe (Script.accesses cs made w)
  writes : ∀ m : Write, Safe (m.accesses w)
  reading : Safe w.readAccesses
  queries : ∀ a ∈ w.catalogue.archetypes, ∀ ts, Safe (a.queryAccesses ts)
  flushing : Safe w.pool.flushAccesses
  closing : Safe w.closeAccesses
  requestFaults : ∀ (r : Request) (f : Fault),
    failure (r.serve w) = some (.refused f) → f.isInternal = false
  scriptFaults : ∀ (cs : List Command) (made : List Handle) (f : Fault),
    failure (Script.runAll cs made w) = some (.refused f) → f.isInternal = false
  componentFaults : ∀ h t f, w.component h t = .error f → f = .invalidHandle h
  changeFaults : ∀ h t g f v, modifyComponent h t g w = .error (.refused f) v →
    f = .invalidArgument .readOnlyHandles ∨ f = .invalidHandle h
  columnFaults : ∀ id k a v j f, w.view? id k = some (a, v) → v.column j = .error f →
    f = .outOfRange .component j v.layout.columns.length ∧ v.layout.columns.length ≤ j
  requestStops : ∀ r : Request, failure (r.serve w) = some .aborted → r.Interrupted w
  scriptStops : ∀ (cs : List Command) (made : List Handle),
    failure (Script.runAll cs made w) = some .aborted → Script.Interrupted cs made w

lemma World.Healthy.guarded {w : World} (hw : w.Healthy) : w.Guarded where
  operations := hw.safe_operation
  scripts := hw.safe_script
  writes := hw.safe_write
  reading := hw.safe_read
  queries _ _ ts :=
    safe_append.mpr ⟨Ascending.safe_scan false _ ts, Ascending.safe_merge false _ ts⟩
  flushing := hw.safe_flush
  closing := hw.safe_close
  requestFaults := hw.outward_serve
  scriptFaults := hw.outward_script
  componentFaults _ _ _ hc := (hw.sound.component_error hc).1
  changeFaults _ _ _ _ _ := hw.sound.modifyComponent_error
  columnFaults _ _ _ _ _ _ hv := (hw.sound.fits hv).column_error
  requestStops _ := hw.interrupted_request
  scriptStops _ _ := hw.interrupted_script

namespace Session

/-- In every session, whatever was done before and whenever memory ran out: no operation,
script, write or read reaches for a record, a slot, a chunk, a column or bytes that are not there,
and no counter falls below zero, neither when a reserved place is given up nor when the store is
closed. No request is refused for a fault of the store itself: a component is found wherever a
handle is valid, and archetypes wherever they are indexed. Nothing is interrupted but by a default
that could not be made. -/
theorem nothing_goes_out_of_bounds {s : Session} (hs : s.Strained) : s.world.Guarded :=
  hs.healthy.guarded

/-- The session `fragile`, when memory has run out. -/
def exhausted : Session := fragile.move (.memory (some 0))

/-- The types that have a chunk already have room for another entity, unless a default cannot be
made; others are refused for want of a chunk. -/
theorem nothing_goes_out_of_bounds_sample :
    (Operation.createWith [⟨1⟩]).failure exhausted.world = none ∧
    (Operation.createWith [⟨1⟩, ⟨2⟩]).failure exhausted.world =
      some (.refused (.allocationFailed 16384)) ∧
    Access.lower 1 1 ∈ (Operation.destroy ⟨0, 1⟩).accesses exhausted.world ∧
    exhausted.world.Guarded ∧ fragile.world.Guarded := by
  have hfragile : fragile.Strained := strained_blank.run _
  refine ⟨by decide +kernel, by decide +kernel, by decide +kernel, ?_, ?_⟩
  · exact nothing_goes_out_of_bounds (hfragile.move _)
  · exact nothing_goes_out_of_bounds hfragile

end Session

end EntityStore
