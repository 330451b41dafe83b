import Mathlib
import EntityStore.Proofs.Writes

/-!
# Changing the types of an entity

A change of types ends in one of a few ways. If it succeeds, the components of the entity are those
of before, fitted to the new types, and no other entity is any different.
-/
namespace EntityStore

section Fit
variable {r : Registry} {es : List (Registration × Value)} {cs : List Registration}
  {ts : List TypeCode} {t : TypeCode}

def Registry.initial (r : Registry) (t : TypeCode) : Option Content :=
  (r.registration t).toOption.map fun c => c.kind.initial

/-- A default of each type. -/
def Registry.Defaults (r : Registry) (d : TypeCode → Option Value) : Prop :=
  ∀ t, (d t).map Value.content = r.initial t

def Registry.default (r : Registry) (t : TypeCode) (number : Nat) : Option Value :=
  (r.registration t).toOption.map fun c => c.kind.default number

lemma Registry.defaults_default (r : Registry) (number : TypeCode → Nat) :
    r.Defaults fun t => r.default t (number t) := by
  intro t
  exact Option.map_map ..

lemma Listed.registrations (h : Listed r es) :
    r.registrations (es.map fun e => e.1.code) = .ok (es.map Prod.fst) := by
  have hknown := h.known
  rw [Registry.registrations_eq_ok, List.forall₂_map_left_iff, List.forall₂_map_right_iff,
    List.forall₂_same]
  exact hknown

lemma lacking_eq_nil (h : ∀ t ∈ cs.map Registration.code, t ∈ es.map fun e => e.1.code) :
    World.lacking es cs = [] := by
  rw [World.lacking, List.map_eq_nil_iff, List.filter_eq_nil_iff]
  intro c hc
  have hsome := pick_isSome.mpr (h c.code (List.mem_map_of_mem hc))
  rw [Option.isNone_iff_eq_none, Option.eq_none_iff_forall_ne_some]
  obtain ⟨v, hv⟩ := Option.isSome_iff_exists.mp hsome
  exact fun hnone => hnone v hv

lemma lacking_self (es : List (Registration × Value)) : World.lacking es (es.map Prod.fst) = [] :=
  lacking_eq_nil fun t ht => by simpa using ht

lemma Listed.fitted_self (h : Listed r es) (n : Nat) : fitted n es (es.map Prod.fst) = es := by
  have hpick : ∀ e ∈ es, (pick es e.1.code).map (fun v => (e.1, v)) = some e := fun e he => by
    rw [(pick_eq_some h.nodup).mpr ⟨e, he, rfl, rfl⟩]
    rfl
  rw [fitted_of_known (lacking_self es), List.filterMap_map]
  exact (List.filterMap_congr hpick).trans List.filterMap_some

theorem pick_fitted_registrations (h : r.registrations ts = .ok cs) (n : Nat)
    (es : List (Registration × Value)) (t : TypeCode) : ∃ m, pick (fitted n es cs) t =
      if t ∈ ts then (pick es t).or (r.default t m) else none := by
  obtain ⟨m, hm⟩ := pick_fitted n es cs t
  refine ⟨m, hm.trans ?_⟩
  have hcodes := Registry.codes_of_registrations h
  cases hf : cs.find? fun c => c.code = t with
  | none =>
    have hnot : t ∉ ts := by
      rw [← hcodes]
      simpa using hf
    rw [if_neg hnot]
    rfl
  | some c =>
    have hc : c.code = t := by simpa using List.find?_some hf
    have hmem := List.mem_of_find?_eq_some hf
    have ht : t ∈ ts := by
      rw [← hcodes, ← hc]
      exact List.mem_map_of_mem hmem
    have hreg := Registry.registration_of_mem h hmem
    rw [hc] at hreg
    rw [if_pos ht, Registry.default, hreg, Option.map_some]
    cases pick es t <;> rfl

end Fit

namespace World

variable {w v w' : World} {h : Handle} {ts : List TypeCode} {x : Traffic}
  {es : List (Registration × Value)} {g : List TypeCode → List TypeCode → List TypeCode}

/-- The components of an entity are registered, of different types in ascending order, and none of
them is its handle. -/
lemma Sound.listed (hs : w.Sound) (he : w.entry h = .ok es) :
    Listed w.registry es ∧ .entity ∉ es.map (fun e => e.1.code) ∧
      (es.map fun e => e.1.code).Pairwise (· < ·) := by
  cases hl : w.handles.location h with
  | error f =>
    rw [entry, entryAt_of_error hl] at he
    cases he
  | ok m =>
    cases m with
    | none =>
      rw [entry_of_unplaced hl] at he
      obtain rfl := Except.ok.inj he
      exact ⟨⟨by simp, List.nodup_nil⟩, by simp, .nil⟩
    | some l =>
      obtain ⟨a, r, ha, hp, hr, -⟩ := hs.get hl
      rw [entry_of_row ha hl hr] at he
      obtain rfl := Except.ok.inj he
      have hd := hs.catalogue.drafted _ a ha
      have hlen := hp.length_values (List.mem_of_getElem? hr)
      refine ⟨listed_labelled hd hlen, ?_⟩
      rw [Archetype.codes_labelled hlen]
      exact hd.ascending

lemma typesOf_of_get {l : Location} {a : Archetype} (hl : w.handles.location h = .ok (some l))
    (ha : w.catalogue.get? l.archetype = some a) : w.typesOf h = .ok a.signature := by
  simp only [typesOf, hl, Catalogue.get_eq_ok.mpr ha, Except.map]

lemma typesOf_eq (hs : w.Sound) (h : Handle) :
    w.typesOf h = (w.entry h).map fun es => es.map fun e => e.1.code := by
  unfold typesOf
  cases hl : w.handles.location h with
  | error f =>
    rw [entry, entryAt_of_error hl]
    rfl
  | ok m =>
    cases m with
    | none =>
      rw [entry_of_unplaced hl]
      rfl
    | some l =>
      obtain ⟨a, r, ha, hp, hr, -⟩ := hs.get hl
      rw [entry_of_row ha hl hr]
      simp only [Catalogue.get_eq_ok.mpr ha, Except.map,
        Archetype.codes_labelled (hp.length_values (List.mem_of_getElem? hr))]

lemma typesOf_eq_ok (hs : w.Sound) {current : List TypeCode} (hc : w.typesOf h = .ok current) :
    ∃ es, w.entry h = .ok es ∧ es.map (fun e => e.1.code) = current := by
  rw [typesOf_eq hs] at hc
  exact ok_of_map hc

theorem Moving.entry (hs : w.Sound) (hm : Moving w h ts (.ok () w')) :
    ∃ es cs, w.entry h = .ok es ∧ w.registry.registrations ts = .ok cs ∧
      w'.entry = Function.update w.entry h (.ok (fitted w.lifetimes.count es cs)) := by
  cases hm with
  | absent hl ht =>
    have he := entry_of_unplaced hl
    refine ⟨[], [], he, by rw [ht]; rfl, ?_⟩
    rw [fitted, ← he, Function.update_eq_self]
  | @filled v _ id a b ho hsig hx =>
    have hv := ho.sound hs
    obtain ⟨first, cs, hcols, -, hcs⟩ := (hv.catalogue.drafted _ _ hx.found).columns
    refine ⟨[], cs, ?_, by rw [← ho.registry, ← hsig, hcs], ?_⟩
    · rw [← ho.entry hs]
      exact entry_of_unplaced hx.unplaced
    · rw [hx.entry hv, ho.entry hs, ho.lifetimes, hcols, List.tail_cons]
  | moved hm =>
    obtain ⟨es, cs, he, hcs, hupdate | ⟨rfl, ht⟩⟩ := hm.entry hs
    · exact ⟨es, cs, he, hcs, hupdate⟩
    · have hlisted := (hs.listed he).1
      rw [ht, hlisted.registrations] at hcs
      refine ⟨es, cs, he, by rw [ht, hlisted.registrations, hcs], ?_⟩
      rw [← Except.ok.inj hcs, hlisted.fitted_self, ← he, Function.update_eq_self]

lemma Transitions.then (hx : Transitions w 0 v) (hy : Transitions v x w') :
    Transitions w x w' := by
  rw [← zero_add x]
  exact hx.trans hy

lemma Moving.transitions {r : EStateM.Result Failure World Unit} (hm : Moving w h ts r) :
    Transitions w 0 (after r) := by
  cases hm with
  | refused hr => exact (Transition.refused hr).single
  | stalled ho hsig he hx => exact (Transition.stalled ho hx).single
  | filled ho hsig hx => exact (Transition.filled ho hx).single
  | absent hl ht => exact .refl w
  | moved hm => exact (Transition.moved hm).single

/-- The ways in which a change of an entity's types can end. -/
inductive Retyped (w : World) (g : List TypeCode → List TypeCode → List TypeCode) (h : Handle)
    (ts : List TypeCode) : EStateM.Result Failure World Unit → Prop
  | refused (f : Fault) : Retyped w g h ts (.error (.refused f) w)
  | same {current : List TypeCode} (hv : Ascending.validate ts = .ok ())
      (hc : w.typesOf h = .ok current) (hg : (g current ts).length = current.length) :
      Retyped w g h ts (.ok () w)
  | moved {current : List TypeCode} {r : EStateM.Result Failure World Unit}
      (hv : Ascending.validate ts = .ok ()) (hc : w.typesOf h = .ok current)
      (hm : Moving w h (g current ts) r) : Retyped w g h ts r

theorem retyped (hs : w.Sound) (g : List TypeCode → List TypeCode → List TypeCode) (h : Handle)
    (ts : List TypeCode) : Retyped w g h ts (retype g h ts w) := by
  unfold retype
  cases hv : Ascending.validate ts with
  | error f => exact .refused f
  | ok u =>
    cases hc : w.typesOf h with
    | error f => exact .refused f
    | ok current =>
      by_cases hg : (g current ts).length = current.length
      · simp only [hg, if_true]
        exact .same hv hc hg
      · simp only [hg, if_false]
        exact .moved hv hc (moving hs h _)

lemma added (hs : w.Sound) (h : Handle) (ts : List TypeCode) :
    Retyped w Ascending.union h ts (addComponents h ts w) := retyped hs _ h ts

lemma removed (hs : w.Sound) (h : Handle) (ts : List TypeCode) :
    Retyped w Ascending.difference h ts (removeComponents h ts w) := retyped hs _ h ts

/-- It is refused for the types or for want of room. -/
lemma Retyped.refusal {f : Fault} (hr : Retyped w g h ts (.error (.refused f) w')) :
    Refused w f w' := by
  cases hr with
  | refused f => exact .types f
  | moved hv hc hm =>
    cases hm with
    | refused hr => exact hr

theorem Retyped.transitions {r : EStateM.Result Failure World Unit} (hr : Retyped w g h ts r) :
    Transitions w 0 (after r) := by
  cases hr with
  | refused f => exact .refl w
  | same hv hc hg => exact .refl w
  | moved hv hc hm => exact hm.transitions

lemma filter_self (es : List (Registration × Value)) :
    es.filter (fun e => !decide (e.1.code ∈ es.map fun e => e.1.code)) = [] := by
  rw [List.filter_eq_nil_iff]
  intro e he
  simp [List.mem_map_of_mem (f := fun e => e.1.code) he]

section Events
variable {cs : List Registration}

lemma events_self (hl : Listed w.registry es)
    (hcs : w.registry.registrations (es.map fun e => e.1.code) = .ok cs) (n : Nat)
    (log : List Event) :
    log = log ++ Lifetimes.makeEvents (Lifetimes.defaults n (lacking es cs)) ++
      Lifetimes.dropEvents (contents (es.filter fun e =>
        !decide (e.1.code ∈ es.map fun e => e.1.code))) := by
  rw [hl.registrations] at hcs
  obtain rfl := Except.ok.inj hcs
  rw [lacking_self, filter_self]
  simp [Lifetimes.makeEvents, Lifetimes.defaults, Lifetimes.dropEvents, contents]

lemma Filled.events_fitted {id : Nat} {a b : Archetype} (hs : w.Sound) (ho : Opened w v id a)
    (hsig : a.signature = ts) (hx : Filled v w' h id a b) (he : w.entry h = .ok es)
    (hcs : w.registry.registrations ts = .ok cs) :
    w'.lifetimes.events = w.lifetimes.events ++
      Lifetimes.makeEvents (Lifetimes.defaults w.lifetimes.count (lacking es cs)) ++
      Lifetimes.dropEvents (contents (es.filter fun e => !decide (e.1.code ∈ ts))) := by
  rw [← ho.entry hs, entry_of_unplaced hx.unplaced] at he
  obtain rfl := Except.ok.inj he
  obtain ⟨first, ds, hcols, -, hds⟩ :=
    ((ho.sound hs).catalogue.drafted _ _ hx.found).columns
  rw [ho.registry, hsig, hcs] at hds
  obtain rfl := Except.ok.inj hds
  have hkinds : a.layout.kinds.tail = lacking [] cs := by
    rw [kinds_eq_lacking, hcols, List.tail_cons]
  rw [hx.events, ho.rest, hkinds]
  exact (List.append_nil _).symm

lemma Transferred.events_fitted {l : Location} {id : Nat} {a a' b b' : Archetype} {r : Row}
    {d : Handle} (hs : w.Sound) (ho : Opened w v id b) (hsig : b.signature = ts)
    (hx : Transferred v w' h l id a a' b b' r d) (he : w.entry h = .ok es)
    (hcs : w.registry.registrations ts = .ok cs) :
    w'.lifetimes.events = w.lifetimes.events ++
      Lifetimes.makeEvents (Lifetimes.defaults w.lifetimes.count (lacking es cs)) ++
      Lifetimes.dropEvents (contents (es.filter fun e => !decide (e.1.code ∈ ts))) := by
  have hv := ho.sound hs
  have hda := hv.catalogue.drafted _ a hx.source
  have hdb := hv.catalogue.drafted _ b hx.target
  have hlen := (hv.catalogue.packed _ a hx.source).length_values (List.mem_of_getElem? hx.row)
  rw [← ho.entry hs, entry_of_row hx.source hx.placed hx.row] at he
  obtain rfl := Except.ok.inj he
  obtain ⟨first, ds, hcols, -, hds⟩ := hdb.columns
  rw [ho.registry, hsig, hcs] at hds
  obtain rfl := Except.ok.inj hds
  rw [hx.events, surplus_eq hda hdb hlen, hcols, List.tail_cons,
    Registry.codes_of_registrations hcs, ho.rest]

/-- A successful move makes the defaults of the types that the entity lacks, and drops the
components of those that it loses. -/
theorem Moving.events (hs : w.Sound) (hm : Moving w h ts (.ok () w')) (he : w.entry h = .ok es)
    (hcs : w.registry.registrations ts = .ok cs) :
    w'.lifetimes.events = w.lifetimes.events ++
      Lifetimes.makeEvents (Lifetimes.defaults w.lifetimes.count (lacking es cs)) ++
      Lifetimes.dropEvents (contents (es.filter fun e => !decide (e.1.code ∈ ts))) := by
  cases hm with
  | absent hl ht =>
    have hlisted := (hs.listed he).1
    rw [entry_of_unplaced hl] at he
    obtain rfl := Except.ok.inj he
    subst ht
    exact events_self hlisted hcs _ _
  | filled ho hsig hx => exact hx.events_fitted hs ho hsig he hcs
  | moved hm =>
    cases hm with
    | away ht hx =>
      subst ht
      rw [entry_of_row hx.found hx.placed hx.row] at he
      obtain rfl := Except.ok.inj he
      obtain rfl := Except.ok.inj hcs
      simpa [lacking, Lifetimes.makeEvents, Lifetimes.defaults, contents] using hx.events
    | @still l a hl ha hsig =>
      obtain ⟨a', r, ha', hp, hr, -⟩ := hs.get hl
      obtain rfl : a' = a := Option.some.inj (ha'.symm.trans ha)
      have hlisted := (hs.listed he).1
      rw [entry_of_row ha hl hr] at he
      obtain rfl := Except.ok.inj he
      have hcodes := Archetype.codes_labelled (hp.length_values (List.mem_of_getElem? hr))
      rw [hsig] at hcodes
      rw [← hcodes] at hcs ⊢
      exact events_self hlisted hcs _ _
    | across ho hsig hx => exact hx.events_fitted hs ho hsig he hcs

end Events

lemma Moving.kept (hm : Moving w h ts (.ok () w')) : Kept w w' := by
  cases hm with
  | filled ho hsig hx => exact ho.kept.trans hx.kept
  | absent hl ht => exact .refl w
  | moved hm => exact hm.kept

lemma Retyped.kept (hr : Retyped w g h ts (.ok () w')) : Kept w w' := by
  cases hr with
  | same hv hc hg => exact .refl w
  | moved hv hc hm => exact hm.kept

/-- What a successful change of types makes of an entity's components, for changes that return the
types unless they change how many there are. -/
theorem Retyped.entry (hs : w.Sound) (hg : ∀ as bs, (g as bs).length = as.length → g as bs = as)
    (hr : Retyped w g h ts (.ok () w')) :
    ∃ es cs, Ascending.validate ts = .ok () ∧ w.entry h = .ok es ∧
      w.registry.registrations (g (es.map fun e => e.1.code) ts) = .ok cs ∧
      w'.entry = Function.update w.entry h (.ok (fitted w.lifetimes.count es cs)) := by
  cases hr with
  | same hv hc hlen =>
    obtain ⟨es, he, rfl⟩ := typesOf_eq_ok hs hc
    have hlisted := (hs.listed he).1
    refine ⟨es, _, hv, he, by rw [hg _ _ hlen, hlisted.registrations], ?_⟩
    rw [hlisted.fitted_self, ← he, Function.update_eq_self]
  | moved hv hc hm =>
    obtain ⟨es, he, rfl⟩ := typesOf_eq_ok hs hc
    obtain ⟨es', cs, he', hcs, hupdate⟩ := hm.entry hs
    obtain rfl := Except.ok.inj (he.symm.trans he')
    exact ⟨es, cs, hv, he, hcs, hupdate⟩

/-- A successful change of types makes and drops what the move does that it stands for. -/
theorem Retyped.events (hs : w.Sound) (hg : ∀ as bs, (g as bs).length = as.length → g as bs = as)
    (hr : Retyped w g h ts (.ok () w')) {cs : List Registration} (he : w.entry h = .ok es)
    (hcs : w.registry.registrations (g (es.map fun e => e.1.code) ts) = .ok cs) :
    w'.lifetimes.events = w.lifetimes.events ++
      Lifetimes.makeEvents (Lifetimes.defaults w.lifetimes.count (lacking es cs)) ++
      Lifetimes.dropEvents (contents (es.filter fun e =>
        !decide (e.1.code ∈ g (es.map fun e => e.1.code) ts))) := by
  cases hr with
  | same hv hc hlen =>
    obtain ⟨es', he', rfl⟩ := typesOf_eq_ok hs hc
    obtain rfl := Except.ok.inj (he.symm.trans he')
    rw [hg _ _ hlen] at hcs ⊢
    exact events_self (hs.listed he).1 hcs _ _
  | moved hv hc hm =>
    obtain ⟨es', he', rfl⟩ := typesOf_eq_ok hs hc
    obtain rfl := Except.ok.inj (he.symm.trans he')
    exact hm.events hs he hcs

end World

end EntityStore
