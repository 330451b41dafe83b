import Mathlib
import EntityStore.Proofs.Retyping

/-!
# How operations end

Each operation on a sound store ends in one of a few ways, which the outcome relations here list in
full. In every one of them the store went through a run of transitions, and what that run hands
over is what the caller did.
-/
namespace EntityStore.World

variable {w v w' : World} {h : Handle} {k : Kind} {ts : List TypeCode} {a b : Archetype}
  {x : Traffic} {f : Fault} {g : List TypeCode → List TypeCode → List TypeCode}

/-- The ways in which creating an entity with components can end. A handle that was brought to life
in vain is freed again, but not if a default could not be made. -/
inductive Created (w : World) (ts : List TypeCode) : EStateM.Result Failure World Handle → Prop
  | refused (f : Fault) : Created w ts (.error (.refused f) w)
  | bare {h : Handle} {t : HandleTable} (ha : w.handles.allocate = .ok (h, t)) (ht : ts = []) :
      Created w ts (.ok h { w with handles := t })
  | undone {h : Handle} {t t' : HandleTable} {f : Fault} {v : World}
      (ha : w.handles.allocate = .ok (h, t)) (hr : Refused { w with handles := t } f v)
      (hf : v.handles.free h = .ok t') :
      Created w ts (.error (.refused f) { v with handles := t' })
  | stalled {h : Handle} {t : HandleTable} {w' : World} (ha : w.handles.allocate = .ok (h, t))
      (hm : Moving { w with handles := t } h ts (.error .aborted w')) :
      Created w ts (.error .aborted w')
  | filled {h : Handle} {t : HandleTable} {w' : World} (hv : Ascending.validate ts = .ok ())
      (ha : w.handles.allocate = .ok (h, t))
      (hm : Moving { w with handles := t } h ts (.ok () w')) : Created w ts (.ok h w')

lemma Refused.handles (hr : Refused w f w') : w'.handles = w.handles := by
  cases hr with
  | types => rfl
  | room ho hf => rw [recycle, ho.handles]

/-- Every way in which creating an entity with components can end. -/
theorem created (hs : w.Sound) (ts : List TypeCode) : Created w ts (createWith ts w) := by
  unfold createWith createEntity
  cases hv : Ascending.validate ts with
  | error f => exact .refused f
  | ok u =>
    cases ha : w.handles.allocate with
    | error f => exact .refused f
    | ok ht =>
      obtain ⟨h, t⟩ := ht
      have hsound := (Transition.allocated ha).sound hs
      obtain ⟨-, hloc, -⟩ := HandleTable.location_allocate ha
      have hl : t.location h = .ok none := by rw [hloc, Function.update_self]
      by_cases hempty : ts = []
      · simp only [hempty, List.isEmpty_nil, if_true]
        exact .bare ha rfl
      · have hne : ts.isEmpty = false := by simpa using hempty
        simp only [hne, Bool.false_eq_true, if_false]
        have hm : Moving { w with handles := t } h ts (insert h ts { w with handles := t }) :=
          moving_insert hsound hempty hl
        cases hr : insert h ts { w with handles := t } with
        | ok u w' =>
          rw [hr] at hm
          exact .filled hv ha hm
        | error e w' =>
          rw [hr] at hm
          cases e with
          | aborted => exact .stalled ha hm
          | refused f =>
            cases hm with
            | refused hr =>
              have hfree : w'.handles.location h = .ok none := by
                rw [hr.handles]
                exact hl
              obtain ⟨t', hf⟩ := HandleTable.free_ok_iff.mpr ⟨_, hfree⟩
              simp only [hf]
              exact .undone ha hr hf

theorem Created.transitions {r : EStateM.Result Failure World Handle} (hc : Created w ts r) :
    Transitions w 0 (after r) := by
  cases hc with
  | refused f => exact .refl w
  | bare ha ht => exact (Transition.allocated ha).single
  | undone ha hr hf =>
    obtain ⟨-, hloc, -⟩ := HandleTable.location_allocate ha
    refine (Transition.allocated ha).single.then ((Transition.refused hr).single.then ?_)
    exact (Transition.freed (by rw [hr.handles, hloc, Function.update_self]) hf).single
  | stalled ha hm => exact (Transition.allocated ha).single.then hm.transitions
  | filled hv ha hm => exact (Transition.allocated ha).single.then hm.transitions

/-- The ways in which destroying an entity can end. -/
inductive Destroyed (w : World) (h : Handle) : EStateM.Result Failure World Unit → Prop
  | refused {f : Fault} (hl : w.handles.location h = .error f) :
      Destroyed w h (.error (.refused f) w)
  | bare {t : HandleTable} (hl : w.handles.location h = .ok none)
      (hf : w.handles.free h = .ok t) : Destroyed w h (.ok () { w with handles := t })
  | vacated {v : World} {t : HandleTable} {l : Location} {a b : Archetype} {r : Row} {d : Handle}
      (hx : Vacated w v h l a b r d) (hf : v.handles.free h = .ok t) :
      Destroyed w h (.ok () { v with handles := t })

theorem destroyed (hs : w.Sound) (h : Handle) : Destroyed w h (destroy h w) := by
  unfold destroy freeHandle
  cases hl : w.handles.location h with
  | error f => exact .refused hl
  | ok m =>
    cases m with
    | none =>
      obtain ⟨t, hf⟩ := HandleTable.free_ok_iff.mpr ⟨none, hl⟩
      simp only [hf]
      exact .bare hl hf
    | some l =>
      obtain ⟨a, b, r, d, v, hx, hvacate⟩ := vacate_eq hs hl
      obtain ⟨t, hf⟩ := HandleTable.free_ok_iff.mpr
        ⟨none, by rw [hx.location, Function.update_self]⟩
      simp only [hvacate, hf]
      exact .vacated hx hf

theorem Destroyed.transitions {r : EStateM.Result Failure World Unit} (hd : Destroyed w h r) :
    Transitions w 0 (after r) := by
  cases hd with
  | refused => exact .refl w
  | bare hl hf => exact (Transition.freed hl hf).single
  | vacated hx hf =>
    have hv : Moved w h [] _ := .away rfl hx
    have hl := congrFun hx.location h
    rw [Function.update_self] at hl
    exact (Transition.moved hv).single.then (Transition.freed hl hf).single

/-- The ways in which storing a value can end. Once the component has been added nothing goes
wrong any more. -/
inductive Assigned (w : World) (h : Handle) (k : Kind) (u : Value) :
    EStateM.Result Failure World Unit → Prop
  | refused {f : Fault} (hk : w.registry.register k .none = .error f) :
      Assigned w h k u (.error (.refused f) w)
  | unchanged {t : TypeCode} {registry : Registry} {e : Failure} {v : World}
      (hk : w.registry.register k .none = .ok (t, registry))
      (hr : Retyped { w with registry } Ascending.union h [t] (.error e v)) :
      Assigned w h k u (.error e v)
  | stored {t : TypeCode} {registry : Registry} {v : World} {l : Location} {a b : Archetype}
      {r : Row} {j : Nat} {old : Value} (hk : w.registry.register k .none = .ok (t, registry))
      (hr : Retyped { w with registry } Ascending.union h [t] (.ok () v))
      (ht : Touched v h t (fun _ => u) l a b r j ⟨t, k⟩ old) :
      Assigned w h k u (.ok () { v with
        catalogue := v.catalogue.set l.archetype b, lifetimes := v.lifetimes.drop k old })

lemma Retyped.component {t : TypeCode} (hs : w.Sound) (ht : w.registry.registration t = .ok ⟨t, k⟩)
    (hr : Retyped w Ascending.union h [t] (.ok () v)) :
    t ≠ .entity ∧ ∃ old, v.component h t = .ok (some old) := by
  obtain ⟨es, cs, hv, he, hcs, hupdate⟩ := hr.entry hs Ascending.union_of_length
  have hne : t ≠ .entity := by
    have hentity := (Ascending.validate_eq_ok.mp hv).1
    simpa [eq_comm] using hentity
  have hvs : v.Sound := hr.transitions.sound hs
  have hmem : t ∈ Ascending.union (es.map fun e => e.1.code) [t] :=
    Ascending.mem_union.mpr (.inr (List.mem_singleton_self t))
  obtain ⟨n, hpick⟩ := pick_fitted_registrations hcs w.lifetimes.count es t
  rw [if_pos hmem, Registry.default, ht] at hpick
  refine ⟨hne, (pick es t).getD (k.default n), ?_⟩
  rw [component_eq hvs h hne, hupdate, Function.update_self, Except.map, hpick]
  cases pick es t <;> rfl

theorem assigned (hs : w.Sound) (h : Handle) (k : Kind) (u : Value) :
    Assigned w h k u (assign h k u w) := by
  unfold assign
  cases hk : w.registry.register k .none with
  | error f => exact .refused hk
  | ok tr =>
    obtain ⟨t, registry⟩ := tr
    obtain ⟨hvalid, -, hlookup⟩ := Registry.register_spec hs.registry hk
    have hsound := (Transition.registered hk).sound hs
    have hreg := ((Registry.lookup_eq_some hvalid).mp hlookup).2
    have hr := retyped hsound Ascending.union h [t]
    cases hadd : retype Ascending.union h [t] { w with registry } with
    | error e v =>
      rw [hadd] at hr
      simp only [addComponents, hadd]
      exact .unchanged hk hr
    | ok _ v =>
      rw [hadd] at hr
      have hvs : v.Sound := hr.transitions.sound hsound
      obtain ⟨hne, old, hold⟩ := hr.component (k := k) hsound hreg
      obtain rfl : v.registry = registry := hr.kept.registry
      rcases modifyComponent_cases hvs h t fun _ => u with
        ⟨-, rfl | ⟨f, hc⟩⟩ | ⟨-, hc⟩ | ⟨l, a, b, r, j, e, old, ht, hc, hm⟩
      · exact absurd rfl hne
      · rw [hold] at hc
        cases hc
      · rw [hold] at hc
        cases hc
      · have he : e = ⟨t, k⟩ := by
          have hreg' := ht.registration hvs
          rw [hreg] at hreg'
          exact (Except.ok.inj hreg').symm
        subst he
        simp only [addComponents, hadd, exchange, hlookup, hm]
        exact .stored hk hr ht

lemma assigned_of_put {u : Value} (hs : w.Sound) (hp : put h k u w = .ok () w') :
    Assigned w h k u (.ok () w') := by
  have ha := assigned hs h k u
  unfold put at hp
  cases hr : assign h k u w with
  | error e v => simp [hr] at hp
  | ok _ v =>
    rw [hr] at ha hp
    exact hp ▸ ha

/-- A value that is not stored is dropped. -/
lemma assigned_of_put_error {u : Value} {e : Failure} (hs : w.Sound)
    (hp : put h k u w = .error e w') : ∃ v, Assigned w h k u (.error e v) ∧
      w' = { v with lifetimes := v.lifetimes.drop k u } := by
  have ha := assigned hs h k u
  unfold put at hp
  cases hr : assign h k u w with
  | ok _ v => simp [hr] at hp
  | error e v =>
    simp only [hr, EStateM.Result.error.injEq] at hp
    obtain ⟨rfl, rfl⟩ := hp
    exact ⟨v, hr ▸ ha, rfl⟩

lemma Assigned.transitions_error {u : Value} {e : Failure}
    (ha : Assigned w h k u (.error e w')) : Transitions w 0 w' := by
  cases ha with
  | refused hk => exact .refl w
  | unchanged hk hr => exact (Transition.registered hk).single.then hr.transitions

lemma Assigned.transitions_ok {u : Value} (hs : w.Sound) (ha : Assigned w h k u (.ok () w')) :
    Transitions w (owned [(k, u)], 0) w' := by
  cases ha with
  | @stored t registry v l a b r j old hk hr ht =>
    have hsound := (Transition.registered hk).sound hs
    have hwritten := ht.written (x := (owned [(k, u)], 0)) (hr.transitions.sound hsound) [(k, old)]
      (by simp [Traffic.entering, Traffic.leaving, add_comm])
    exact (Transition.registered hk).single.then
      (hr.transitions.then (Transition.written hwritten).single)

/-- Storing a value hands it over, whether it succeeds or not. -/
theorem transitions_put (hs : w.Sound) (h : Handle) (k : Kind) (u : Value) :
    Transitions w (owned [(k, u)], 0) (after (put h k u w)) := by
  have ha := assigned hs h k u
  unfold put
  cases hr : assign h k u w with
  | ok _ v =>
    rw [hr] at ha
    exact ha.transitions_ok hs
  | error e v =>
    rw [hr] at ha
    exact ha.transitions_error.then (Transition.returned v k u).single

end EntityStore.World
