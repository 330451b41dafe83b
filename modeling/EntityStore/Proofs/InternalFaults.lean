import Mathlib
import EntityStore.Proofs.ColumnAccess
import EntityStore.Proofs.Healthy
import EntityStore.Proofs.Tuning

/-!
# Faults that never show

Some faults would tell of a store that is not in order: a location where nothing is stored, a chain
of free slots that leads to a used one, types that are indexed twice. In a healthy store no request
is refused for one of them. Steps that could be are shown to succeed; what the others are refused
for are the arguments of the caller, and room.
-/
namespace EntityStore

/-- The fault would be one of the store, and not of those who use it. -/
def Fault.isInternal : Fault → Bool
  | outOfRange .componentType _ _ | outOfRange .pendingEntity _ _ => false
  | outOfRange _ _ _ => true
  | invalidArgument .noTypes | invalidArgument .handleNotFirst
  | invalidArgument (.alreadyIndexed _) | invalidArgument (.kindMismatch _ _) => true
  | _ => false

variable {f : Fault}

lemma HandleTable.external_location {t : HandleTable} {h : Handle}
    (hl : t.location h = .error f) : f.isInternal = false := by
  rw [location_error hl]
  rfl

lemma HandleTable.Chronicle.external_allocate {t : HandleTable} {es : List Event}
    (hc : Chronicle t es) (ha : t.allocate = .error f) : f.isInternal = false := by
  unfold HandleTable.allocate at ha
  split at ha
  next i hi =>
    obtain ⟨v, next, hr⟩ := hc.freeHead hi
    simp [hr] at ha
  next =>
    split_ifs at ha
    rw [← Except.error.inj ha]
    rfl

namespace Ascending
variable {ts : List TypeCode}

lemma external_validate (hx : validate ts = .error f) : f.isInternal = false := by
  rcases validate_eq_error hx with rfl | ⟨a, b, rfl | rfl⟩ <;> rfl

end Ascending

namespace Registry
variable {r : Registry} {t : TypeCode} {ts : List TypeCode} {k : Kind} {m : Markers}

lemma external_registration (hx : r.registration t = .error f) : f.isInternal = false := by
  unfold registration at hx
  repeat' split at hx
  · cases hx
  all_goals
    rw [← Except.error.inj hx]
    rfl

lemma external_registrations (hx : r.registrations ts = .error f) : f.isInternal = false := by
  induction ts with
  | nil => cases hx
  | cons t ts ih =>
    unfold registrations at hx
    split at hx
    next g ht =>
      obtain rfl := Except.error.inj hx
      exact external_registration ht
    next e ht => exact ih (error_of_map hx)

lemma external_register (hx : r.register k m = .error f) : f.isInternal = false := by
  unfold register at hx
  split at hx
  · cases hx
  · split_ifs at hx
    all_goals
      rw [← Except.error.inj hx]
      rfl

end Registry

lemma Archetype.external_reserve {a : Archetype} {p : Pool} {v : UInt32}
    (hr : a.reserve p v = .error f) : f.isInternal = false := by
  have hshort := isShortage_reserve hr
  cases f with
  | capacityExceeded | allocationFailed => rfl
  | _ => cases hshort

lemma Layout.external_new {cs : List Registration} {n : Nat} (hx : Layout.new cs n = .error f) :
    f.isInternal = false := by
  unfold Layout.new at hx
  extract_lets at hx
  split_ifs at hx
  rw [← Except.error.inj hx]
  rfl

/-- An archetype that has the handle column in front is only refused for its types and their
sizes. -/
lemma Archetype.external_new {id : Nat} {first : Registration} {rest : List Registration}
    {s : Settings} (hfirst : first.code = .entity)
    (hx : Archetype.new id (first :: rest) s = .error f) : f.isInternal = false := by
  simp only [Archetype.new, hfirst, ne_eq, not_true_eq_false, if_false] at hx
  split_ifs at hx
  · rw [← Except.error.inj hx]
    rfl
  · split at hx
    next g hv =>
      obtain rfl := Except.error.inj hx
      exact Ascending.external_validate hv
    next => exact Layout.external_new (error_of_map hx)

lemma Command.external_operation {made : List Handle} {c : Command}
    (ho : c.operation made = .error f) : f.isInternal = false := by
  have hresolve : ∀ t : Target, t.resolve made = .error f → f.isInternal = false := by
    intro t ht
    unfold Target.resolve at ht
    repeat' split at ht
    · cases ht
    · cases ht
    · rw [← Except.error.inj ht]
      rfl
  cases c with
  | create s => cases ho
  | destroy t | add t s | remove t s | put t k v => exact hresolve t (error_of_map ho)

namespace World
variable {w v w' : World} {h : Handle} {l : Location} {id : Nat}
  {ts : List TypeCode} {t : TypeCode} {k : Kind} {x : Value} {a : Archetype} {α β : Type}

lemma external_draft (hd : w.draft ts = .error f) : f.isInternal = false := by
  unfold draft at hd
  cases hr : w.registry.registrations (.entity :: ts) with
  | error g =>
    obtain rfl : g = f := by simpa [hr] using hd
    exact Registry.external_registrations hr
  | ok columns =>
    cases Registry.registrations_eq_ok.mp hr with
    | cons hfirst _ =>
      rw [hr] at hd
      exact Archetype.external_new (Registry.code_of_registration hfirst) hd

/-- If the step was refused, then not for a fault of the store. -/
def Outward (r : EStateM.Result Failure World α) : Prop :=
  ∀ f, failure r = some (.refused f) → f.isInternal = false

lemma outward_ok (y : α) (w : World) :
    Outward (.ok y w : EStateM.Result Failure World α) := by
  intro f hf
  cases hf

lemma outward_aborted (w : World) :
    Outward (.error .aborted w : EStateM.Result Failure World α) := by
  intro f hf
  cases hf

lemma outward_refused (hf : f.isInternal = false) (w : World) :
    Outward (.error (.refused f) w : EStateM.Result Failure World α) := by
  intro g hg
  obtain rfl : f = g := by simpa [failure] using hg
  exact hf

lemma Outward.congr {r : EStateM.Result Failure World α} {r' : EStateM.Result Failure World β}
    (hr : Outward r) (hf : failure r' = failure r) : Outward r' := by
  intro f hf'
  exact hr f (hf ▸ hf')

lemma Outward.error {e : Failure} {r : EStateM.Result Failure World β} (hr : Outward r)
    (he : r = .error e v) : Outward (.error e w : EStateM.Result Failure World α) :=
  hr.congr (by rw [he]; rfl)

lemma failure_map (g : α → β) (s : Step α) (w : World) : failure ((g <$> s) w) = failure (s w) := by
  rw [Step.map_apply]
  cases s w <;> rfl

section
variable (hw : w.Healthy)
include hw

/-- A new archetype whose types are not indexed can be added. -/
lemma Healthy.add_ok (hf : w.catalogue.find? a.signature = none) :
    ∃ c, w.catalogue.add a = .ok c := by
  have hvalid := hw.sound.catalogue.valid
  have hnew : ∀ n, ¬ w.catalogue.directory.Holds a.signature n := by
    intro n hn
    have hfound : w.catalogue.find? a.signature = some n :=
      (Directory.get_eq_some hvalid.directory).mpr hn
    rw [hf] at hfound
    cases hfound
  obtain ⟨d, hd⟩ := (Directory.insert_ok_iff hvalid.directory).mpr hnew
  unfold Catalogue.add
  rw [hd]
  cases hhead : w.catalogue.freeHead with
  | none => exact ⟨_, rfl⟩
  | some i =>
    obtain ⟨next, hslot⟩ := hw.consistent.tidy.freeHead hhead
    simp only [hslot]
    exact ⟨_, rfl⟩

lemma Healthy.outward_resolve (ts : List TypeCode) : Outward (resolve ts w) := by
  unfold resolve
  cases hf : w.catalogue.find? ts with
  | some id => exact outward_ok id w
  | none =>
    cases hd : w.draft ts with
    | error f => exact outward_refused (external_draft hd) w
    | ok a =>
      obtain ⟨-, rfl, -⟩ := draft_eq_ok hd
      obtain ⟨c, hc⟩ := hw.add_ok hf
      simp only [hc]
      exact outward_ok _ _

lemma Healthy.outward_insert (hne : ts ≠ []) (hl : w.handles.location h = .ok none) :
    Outward (insert h ts w) := by
  have hresolve := hw.outward_resolve ts
  unfold insert
  cases hr : resolve ts w with
  | error e v => exact hresolve.error hr
  | ok id v =>
    obtain ⟨a, ho, -⟩ := resolve_opened hw.sound hne hr
    rcases fill_cases (ho.sound hw.sound) ho.get (by rw [ho.handles, hl]) with
      ⟨f, hf, hfill⟩ | ⟨b, w', -, hfill⟩ | ⟨b, w', -, hfill⟩
    all_goals simp only [hfill]
    · exact outward_refused (Archetype.external_reserve hf) _
    · exact outward_aborted w'
    · exact outward_ok () w'

lemma Healthy.outward_move (h : Handle) (ts : List TypeCode) : Outward (move h ts w) := by
  unfold move
  cases hl : w.handles.location h with
  | error f => exact outward_refused (HandleTable.external_location hl) w
  | ok m =>
    cases m with
    | none =>
      dsimp only
      split_ifs with ht
      · exact outward_ok () w
      · exact hw.outward_insert (by simpa using ht) hl
    | some l =>
      dsimp only
      split_ifs with ht
      · obtain ⟨-, -, -, -, v, -, hvacate⟩ := vacate_eq hw.sound hl
        rw [hvacate]
        exact outward_ok () v
      · have hresolve := hw.outward_resolve ts
        cases hr : resolve ts w with
        | error e v => exact hresolve.error hr
        | ok id v =>
          dsimp only
          split_ifs with hid
          · exact outward_ok () v
          · obtain ⟨b, ho, -⟩ := resolve_opened hw.sound (by simpa using ht) hr
            have hlv : v.handles.location h = .ok (some l) := by rw [ho.handles, hl]
            rcases transfer_cases (ho.sound hw.sound) hlv ho.get (Ne.symm hid) with
              ⟨f, hf, hx⟩ | ⟨-, -, -, w', -, -, -, hx⟩ | ⟨-, -, -, -, -, w', -, hx⟩
            all_goals rw [hx]
            · exact outward_refused (Archetype.external_reserve hf) _
            · exact outward_aborted w'
            · exact outward_ok () w'

end

lemma Sound.get_ok (hs : w.Sound) (hl : w.handles.location h = .ok (some l)) :
    ∃ a, w.catalogue.get l.archetype = .ok a := by
  obtain ⟨a, r, ha, -⟩ := hs.get hl
  exact ⟨a, Catalogue.get_eq_ok.mpr ha⟩

lemma Sound.typesOf_error (hs : w.Sound) (ht : w.typesOf h = .error f) :
    f = .invalidHandle h := by
  unfold typesOf at ht
  split at ht
  next g hl =>
    obtain rfl := Except.error.inj ht
    exact HandleTable.location_error hl
  next => cases ht
  next l hl =>
    obtain ⟨a, ha⟩ := hs.get_ok hl
    rw [ha] at ht
    cases ht

/-- A component is where the handle is located, whenever the handle is valid. -/
lemma Sound.component_error (hs : w.Sound) (hc : w.component h t = .error f) :
    f = .invalidHandle h ∧ w.handles.location h = .error f := by
  cases hl : w.handles.location h with
  | error e =>
    obtain rfl : e = f := by simpa [component, hl] using hc
    exact ⟨HandleTable.location_error hl, rfl⟩
  | ok m =>
    cases m with
    | none => simp [component, hl] at hc
    | some l =>
      obtain ⟨a, r, ha, -, hr, rfl⟩ := hs.get hl
      simp [component_at hs ha hr] at hc

lemma Sound.modifyComponent_error (hs : w.Sound) {g : Value → Value}
    (hm : modifyComponent h t g w = .error (.refused f) v) :
    f = .invalidArgument .readOnlyHandles ∨ f = .invalidHandle h := by
  by_cases ht : t = .entity
  · simp only [modifyComponent, if_pos ht, EStateM.Result.error.injEq, Failure.refused.injEq] at hm
    exact .inl hm.1.symm
  · rcases modifyComponent_cases hs h t g with
      ⟨-, he | ⟨e, hc⟩⟩ | ⟨hok, -⟩ | ⟨_, _, _, _, _, _, _, -, -, hok⟩
    · exact absurd he ht
    · obtain ⟨rfl, hl⟩ := hs.component_error hc
      simp only [modifyComponent, if_neg ht, hl, EStateM.Result.error.injEq,
        Failure.refused.injEq] at hm
      exact .inr hm.1.symm
    · simp [hok] at hm
    · simp [hok] at hm

lemma Sound.outward_exchange (hs : w.Sound) (h : Handle) (k : Kind) (x : Value) :
    Outward (exchange h k x w) := by
  unfold exchange
  split
  next =>
    cases hl : w.handles.location h with
    | error f => exact outward_refused (HandleTable.external_location hl) w
    | ok m => exact outward_ok none w
  next t ht =>
    split
    next e v hm =>
      cases e with
      | aborted => exact outward_aborted v
      | refused f =>
        refine outward_refused ?_ v
        rcases hs.modifyComponent_error hm with rfl | rfl <;> rfl
    next v hm => exact outward_ok none v
    next old v hm => exact outward_ok (some old) _

namespace Healthy
variable (hw : w.Healthy)
include hw

lemma outward_createEntity : Outward (createEntity w) := by
  obtain ⟨es, hes⟩ := hw.chronicle
  unfold createEntity
  cases ha : w.handles.allocate with
  | error f => exact outward_refused (hes.external_allocate ha) w
  | ok q => exact outward_ok q.1 _

/-- The handle of an entity that is refused can be freed again. -/
lemma outward_createWith (ts : List TypeCode) : Outward (createWith ts w) := by
  have hcreate := hw.outward_createEntity
  unfold createWith
  cases hv : Ascending.validate ts with
  | error f => exact outward_refused (Ascending.external_validate hv) w
  | ok u =>
    unfold createEntity at hcreate ⊢
    cases ha : w.handles.allocate with
    | error f =>
      rw [ha] at hcreate
      exact hcreate.error rfl
    | ok q =>
      dsimp only
      split_ifs with ht
      · exact outward_ok q.1 _
      · have hlocation : q.2.location q.1 = .ok none := by
          rw [(HandleTable.location_allocate ha).2.1, Function.update_self]
        have hinsert := (hw.allocated ha).outward_insert (by simpa using ht) hlocation
        split
        next v hi => exact outward_ok q.1 v
        next v hi => exact outward_aborted v
        next f v hi =>
          obtain ⟨hhandles, t, hfree⟩ := free_insert_refused ha hi
          simp only [hhandles, hfree]
          exact hinsert.error hi

lemma outward_retype (g : List TypeCode → List TypeCode → List TypeCode) (h : Handle)
    (ts : List TypeCode) : Outward (retype g h ts w) := by
  unfold retype
  cases hv : Ascending.validate ts with
  | error f => exact outward_refused (Ascending.external_validate hv) w
  | ok u =>
    cases hc : w.typesOf h with
    | error f =>
      rw [hw.sound.typesOf_error hc]
      exact outward_refused rfl w
    | ok current =>
      dsimp only
      split_ifs
      · exact outward_ok () w
      · exact hw.outward_move h _

lemma outward_destroy (h : Handle) : Outward (destroy h w) := by
  unfold destroy freeHandle
  cases hl : w.handles.location h with
  | error f => exact outward_refused (HandleTable.external_location hl) w
  | ok m =>
    cases m with
    | none =>
      obtain ⟨t, hf⟩ := HandleTable.free_ok_iff.mpr ⟨none, hl⟩
      simp only [hf]
      exact outward_ok () _
    | some l =>
      obtain ⟨a, b, r, d, v, hx, hvacate⟩ := vacate_eq hw.sound hl
      obtain ⟨t, hf⟩ := HandleTable.free_ok_iff.mpr
        ⟨none, by rw [hx.location, Function.update_self]⟩
      simp only [hvacate, hf]
      exact outward_ok () _

lemma outward_assign (h : Handle) (k : Kind) (x : Value) : Outward (assign h k x w) := by
  unfold assign
  cases hk : w.registry.register k .none with
  | error f => exact outward_refused (Registry.external_register hk) w
  | ok q =>
    obtain ⟨t, registry⟩ := q
    have hv := hw.registered hk
    have hadd : Outward (addComponents h [t] { w with registry }) := hv.outward_retype _ h [t]
    have hretyped := retyped hv.sound Ascending.union h [t]
    dsimp only
    cases hr : addComponents h [t] { w with registry } with
    | error e u => exact hadd.error hr
    | ok _ u =>
      obtain ⟨hvalid, -, hlookup⟩ := Registry.register_spec hw.sound.registry hk
      have hreg := ((Registry.lookup_eq_some hvalid).mp hlookup).2
      rw [← addComponents, hr] at hretyped
      have hu : u.Sound := hretyped.transitions.sound hv.sound
      obtain ⟨hne, old, hold⟩ := hretyped.component hv.sound hreg
      obtain rfl : u.registry = registry := hretyped.kept.registry
      rcases modifyComponent_cases hu h t fun _ => x with
        ⟨-, he | ⟨e, hc⟩⟩ | ⟨-, hc⟩ | ⟨_, _, _, _, _, _, _, -, -, hm⟩
      · exact absurd he hne
      · simp [hold] at hc
      · simp [hold] at hc
      · simp only [exchange, hlookup, hm]
        exact outward_ok () _

lemma outward_put (h : Handle) (k : Kind) (x : Value) : Outward (put h k x w) := by
  have hassign := hw.outward_assign h k x
  unfold put
  cases hr : assign h k x w with
  | ok _ v => exact outward_ok () v
  | error e v => exact hassign.error hr

theorem outward_operation (op : Operation) : Outward (op.call w) := by
  cases op with
  | create => exact hw.outward_createEntity.congr (failure_map _ _ w)
  | createWith ts => exact (hw.outward_createWith ts).congr (failure_map _ _ w)
  | add h ts => exact (hw.outward_retype _ h ts).congr (failure_answering _ _)
  | remove h ts => exact (hw.outward_retype _ h ts).congr (failure_answering _ _)
  | put h k x => exact (hw.outward_put h k x).congr (failure_answering _ _)
  | destroy h => exact (hw.outward_destroy h).congr (failure_answering _ _)

theorem outward_command (made : List Handle) (c : Command) : Outward (c.run made w) := by
  cases ho : c.operation made with
  | ok op =>
    rw [Command.run_call ho]
    exact (hw.outward_operation op).congr (failure_map _ _ w)
  | error f =>
    rw [Command.run_unresolved ho]
    exact outward_refused (Command.external_operation ho) _

theorem outward_script (cs : List Command) (made : List Handle) :
    Outward (Script.runAll cs made w) := by
  induction cs generalizing w made with
  | nil => exact outward_ok made w
  | cons c cs ih =>
    have hc := hw.outward_command made c
    have hnext := hw.command made c
    unfold Script.runAll
    cases hr : c.run made w with
    | error e v => exact hc.error hr
    | ok made' v =>
      rw [hr] at hnext
      exact ih hnext made'

end Healthy

section
variable (hs : w.Sound)
include hs

lemma Sound.external_get (hx : w.get h k = .error f) : f.isInternal = false := by
  unfold World.get at hx
  split at hx
  · rw [(hs.component_error hx).1]
    rfl
  · exact HandleTable.external_location (error_of_map hx)

lemma Sound.external_hasComponent (hx : w.hasComponent h t = .error f) :
    f.isInternal = false := by
  unfold hasComponent at hx
  split at hx
  next g hl =>
    obtain rfl := Except.error.inj hx
    exact HandleTable.external_location hl
  next => cases hx
  next l hl =>
    obtain ⟨a, ha⟩ := hs.get_ok hl
    rw [ha] at hx
    cases hx

lemma Sound.external_hasComponents (hx : w.hasComponents h ts = .error f) :
    f.isInternal = false := by
  unfold hasComponents at hx
  split at hx
  next g hv =>
    obtain rfl := Except.error.inj hx
    exact Ascending.external_validate hv
  next =>
    split at hx
    next g hl =>
      obtain rfl := Except.error.inj hx
      exact HandleTable.external_location hl
    next => cases hx
    next l hl =>
      obtain ⟨a, ha⟩ := hs.get_ok hl
      rw [ha] at hx
      cases hx

end

lemma external_archetypeOf (hx : w.archetypeOf h = .error f) : f.isInternal = false :=
  HandleTable.external_location (error_of_map hx)

lemma external_matching {all none : List TypeCode} (hx : w.matching all none = .error f) :
    f.isInternal = false := by
  unfold matching at hx
  split at hx
  next g hv =>
    obtain rfl := Except.error.inj hx
    exact Ascending.external_validate hv
  next => exact Ascending.external_validate (error_of_map hx)

lemma outward_ask {question : World → Except Fault α} (g : α → β)
    (hq : ∀ f, question w = .error f → f.isInternal = false) :
    Outward ((g <$> Step.ask question) w) := by
  refine Outward.congr ?_ (failure_map g _ w)
  unfold Step.ask
  cases hr : question w with
  | ok answer => exact outward_ok answer w
  | error f => exact outward_refused (hq f hr) w

/-- No request is refused for a fault of the store. -/
theorem Healthy.outward_serve (hw : w.Healthy) (r : Request) : Outward (r.serve w) := by
  cases r with
  | operate op => exact (hw.outward_operation op).congr (failure_map _ _ w)
  | exchange h k x => exact (hw.sound.outward_exchange h k x).congr (failure_map _ _ w)
  | register k m =>
    unfold Request.serve
    dsimp only
    cases hk : w.registry.register k m with
    | error f => exact outward_refused (Registry.external_register hk) w
    | ok q => exact outward_ok _ _
  | fuse n => exact outward_ok _ _
  | play p =>
    have hplay : Outward (p.play w) := hw.outward_script p.commands []
    exact hplay.congr (failure_map _ _ w)
  | get h k => exact outward_ask _ fun f => hw.sound.external_get
  | types h =>
    refine outward_ask _ fun f hf => ?_
    rw [hw.sound.typesOf_error hf]
    rfl
  | has h t => exact outward_ask _ fun f => hw.sound.external_hasComponent
  | hasAll h ts => exact outward_ask _ fun f => hw.sound.external_hasComponents
  | archetypeOf h => exact outward_ask _ fun f => external_archetypeOf
  | matching ts excluded => exact outward_ask _ fun f hf => external_matching (error_of_map hf)

end World

end EntityStore
