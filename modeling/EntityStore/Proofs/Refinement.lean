import Mathlib
import EntityStore.Proofs.Session

/-!
# The store as a plain map

Read through its public interface, a store is a map from live handles to finite maps from component
types to values. Every operation that succeeds changes this map at one handle, as its name says.
-/
namespace EntityStore

namespace World

/-- What callers can read: the components of each live entity, by code. -/
def plain (w : World) (h : Handle) : Option (TypeCode → Option Value) :=
  if w.handles.isValid h then
    some fun t => if t = .entity then none else (w.component h t).toOption.join
  else none

variable {w v w' : World} {h : Handle} {k : Kind} {u : Value} {ts : List TypeCode} {t : TypeCode}
  {es : List (Registration × Value)}

lemma isValid_eq (w : World) (h : Handle) : w.handles.isValid h = (w.entry h).isOk := by
  rw [HandleTable.isValid, entry, entryAt]
  cases w.handles.location h <;> rfl

lemma plain_eq (hs : w.Sound) (h : Handle) : w.plain h = (w.entry h).toOption.map pick := by
  rw [plain, isValid_eq]
  cases he : w.entry h with
  | error f => rfl
  | ok es =>
    simp only [Except.isOk, Except.toBool, if_true, Except.toOption, Option.map_some]
    congr 1
    funext t
    split_ifs with ht
    · rw [ht, pick_eq_none (hs.listed he).2.1]
    · rw [component_eq hs h ht, he]
      rfl

lemma plain_of_entry (hs : w.Sound) (he : w.entry h = .ok es) : w.plain h = some (pick es) := by
  rw [plain_eq hs, he]
  rfl

lemma plain_update (hs : w.Sound) (hs' : w'.Sound) {m : Except Fault (List (Registration × Value))}
    (he : w'.entry = Function.update w.entry h m) :
    w'.plain = Function.update w.plain h (m.toOption.map pick) := by
  funext g
  rw [plain_eq hs', he]
  by_cases hg : g = h
  · subst hg
    rw [Function.update_self, Function.update_self]
  · rw [Function.update_of_ne hg, Function.update_of_ne hg, plain_eq hs]

lemma plain_update_ok (hs : w.Sound) (hs' : w'.Sound)
    (he : w'.entry = Function.update w.entry h (.ok es)) {m : TypeCode → Option Value}
    (hm : ∀ t, pick es t = m t) : w'.plain = Function.update w.plain h (some m) := by
  rw [plain_update hs hs' he, ← funext hm]
  rfl

lemma initial_isSome {r : Registry} {cs : List Registration} (hcs : r.registrations ts = .ok cs)
    (ht : t ∈ ts) : (r.initial t).isSome := by
  rw [← Registry.codes_of_registrations hcs] at ht
  obtain ⟨c, hc, rfl⟩ := List.mem_map.mp ht
  rw [Registry.initial, Registry.registration_of_mem hcs hc]
  rfl

lemma allocated_plain (hs : w.Sound) {table : HandleTable}
    (ha : w.handles.allocate = .ok (h, table)) :
    w.plain h = none ∧
      entry { w with handles := table } = Function.update w.entry h (.ok []) := by
  obtain ⟨hnew, hloc, -⟩ := HandleTable.location_allocate ha
  constructor
  · rw [plain_eq hs, entry, entryAt_of_error hnew]
    rfl
  · rw [entry, hloc, entryAt_update, entryAt_of_none rfl]
    rfl

theorem plain_create (hs : w.Sound) (hc : createEntity w = .ok h w') :
    w.plain h = none ∧ w'.plain = Function.update w.plain h (some fun _ => none) := by
  unfold createEntity at hc
  cases ha : w.handles.allocate with
  | error f => simp [ha] at hc
  | ok ht =>
    simp only [ha, EStateM.Result.ok.injEq] at hc
    obtain ⟨rfl, rfl⟩ := hc
    obtain ⟨hnone, he⟩ := allocated_plain hs ha
    exact ⟨hnone, plain_update hs ((Transition.allocated ha).sound hs) he⟩

theorem plain_createWith (hs : w.Sound) (hc : createWith ts w = .ok h w') :
    w.plain h = none ∧ (∀ t ∈ ts, (w.registry.initial t).isSome) ∧
      ∃ d, w.registry.Defaults d ∧
        w'.plain = Function.update w.plain h (some fun t => if t ∈ ts then d t else none) := by
  have hcreated := created hs ts
  rw [hc] at hcreated
  have hs' : w'.Sound := hcreated.transitions.sound hs
  cases hcreated with
  | bare ha ht =>
    obtain ⟨hnone, he⟩ := allocated_plain hs ha
    subst ht
    exact ⟨hnone, by simp, _, w.registry.defaults_default fun _ => 0,
      plain_update_ok hs hs' he fun t => rfl⟩
  | filled hv ha hm =>
    obtain ⟨hnone, hempty⟩ := allocated_plain hs ha
    obtain ⟨es, cs, he, hcs, hupdate⟩ := hm.entry ((Transition.allocated ha).sound hs)
    rw [hempty, Function.update_self] at he
    rw [hempty, Function.update_idem] at hupdate
    obtain rfl := Except.ok.inj he
    choose number hnumber using pick_fitted_registrations hcs w.lifetimes.count []
    exact ⟨hnone, fun t ht => initial_isSome hcs ht, _, w.registry.defaults_default number,
      plain_update_ok hs hs' hupdate hnumber⟩

lemma Retyped.plain_union (hs : w.Sound) (hr : Retyped w Ascending.union h ts (.ok () w')) :
    ∃ m, w.plain h = some m ∧ (∀ t ∈ ts, (w.registry.initial t).isSome) ∧
      ∃ d, w.registry.Defaults d ∧ w'.plain = Function.update w.plain h
        (some fun t => (m t).or (if t ∈ ts then d t else none)) := by
  have hs' : w'.Sound := hr.transitions.sound hs
  obtain ⟨es, cs, hv, he, hcs, hupdate⟩ := hr.entry hs Ascending.union_of_length
  choose number hnumber using pick_fitted_registrations hcs w.lifetimes.count es
  refine ⟨pick es, plain_of_entry hs he,
    fun t ht => initial_isSome hcs (Ascending.mem_union.mpr (.inr ht)), _,
    w.registry.defaults_default number, plain_update_ok hs hs' hupdate fun t => ?_⟩
  rw [hnumber]
  by_cases hc : t ∈ es.map fun e => e.1.code
  · obtain ⟨x, hx⟩ := Option.isSome_iff_exists.mp (pick_isSome.mpr hc)
    rw [if_pos (Ascending.mem_union.mpr (.inl hc)), hx]
    rfl
  · rw [pick_eq_none hc]
    simp [Ascending.mem_union, hc]

theorem plain_add (hs : w.Sound) (ha : addComponents h ts w = .ok () w') :
    ∃ m, w.plain h = some m ∧ (∀ t ∈ ts, (w.registry.initial t).isSome) ∧
      ∃ d, w.registry.Defaults d ∧ w'.plain = Function.update w.plain h
        (some fun t => (m t).or (if t ∈ ts then d t else none)) := by
  have hr := added hs h ts
  rw [ha] at hr
  exact hr.plain_union hs

theorem plain_remove (hs : w.Sound) (ha : removeComponents h ts w = .ok () w') :
    ∃ m, w.plain h = some m ∧
      w'.plain = Function.update w.plain h (some fun t => if t ∈ ts then none else m t) := by
  have hr := removed hs h ts
  rw [ha] at hr
  have hs' : w'.Sound := hr.transitions.sound hs
  obtain ⟨es, cs, hv, he, hcs, hupdate⟩ := hr.entry hs Ascending.difference_of_length
  refine ⟨pick es, plain_of_entry hs he, plain_update_ok hs hs' hupdate fun t => ?_⟩
  have hmem : t ∈ Ascending.difference (es.map fun e => e.1.code) ts ↔
      t ∈ es.map (fun e => e.1.code) ∧ t ∉ ts :=
    Ascending.mem_difference (hs.listed he).2.2 (Ascending.validate_eq_ok.mp hv).2
  obtain ⟨n, hpick⟩ := pick_fitted_registrations hcs w.lifetimes.count es t
  rw [hpick]
  by_cases ht : t ∈ ts
  · rw [if_pos ht, if_neg (fun hd => (hmem.mp hd).2 ht)]
  · rw [if_neg ht]
    by_cases hc : t ∈ es.map fun e => e.1.code
    · obtain ⟨x, hx⟩ := Option.isSome_iff_exists.mp (pick_isSome.mpr hc)
      rw [if_pos (hmem.mpr ⟨hc, ht⟩), hx]
      rfl
    · rw [if_neg (fun hd => hc (hmem.mp hd).1), pick_eq_none hc]

lemma Touched.plain {f : Value → Value} {l : Location} {a b : Archetype} {r : Row} {j : Nat}
    {e : Registration} {old : Value} (hs : w.Sound) (hs' : w'.Sound)
    (ht : Touched w h t f l a b r j e old) (hl : w'.handles.location = w.handles.location)
    (hc : w'.catalogue = w.catalogue.set l.archetype b) :
    ∃ m, w.plain h = some m ∧
      w'.plain = Function.update w.plain h (some (Function.update m t (some (f old)))) := by
  obtain ⟨he, hupdate⟩ := ht.entry hs hl hc
  have hat : (a.labelled r)[j]? = some (e, old) := by
    rw [Archetype.labelled, List.getElem?_zip_eq_some]
    exact ⟨ht.column, ht.value⟩
  have hpick := pick_modify (hs.listed he).1.nodup hat f
  rw [ht.code] at hpick
  exact ⟨_, plain_of_entry hs he, plain_update_ok hs hs' hupdate (congrFun hpick)⟩

/-- Storing a value makes it the component of its type and keeps the other components. -/
theorem plain_put (hs : w.Sound) (hp : put h k u w = .ok () w') :
    ∃ m t, w.plain h = some m ∧ w'.registry.lookup k .none = some t ∧
      w'.plain = Function.update w.plain h (some (Function.update m t (some u))) := by
  have ha := assigned_of_put hs hp
  have hs' := (ha.transitions_ok hs).sound hs
  cases ha with
  | @stored t registry v l a b r j old hk hr ht =>
    obtain ⟨hvalid, -, hlookup⟩ := Registry.register_spec hs.registry hk
    have hregistered := (Transition.registered hk).sound hs
    have hvs : v.Sound := hr.transitions.sound hregistered
    obtain rfl : v.registry = registry := hr.kept.registry
    obtain ⟨m, hm, -, d, -, hadd⟩ := hr.plain_union hregistered
    obtain ⟨m', hm', hput⟩ := ht.plain hvs hs' rfl rfl
    rw [hadd, Function.update_self] at hm'
    refine ⟨m, t, hm, hlookup, ?_⟩
    have hsame : Function.update m' t (some u) = Function.update m t (some u) := by
      funext t'
      by_cases ht' : t' = t
      · rw [ht', Function.update_self, Function.update_self]
      · rw [Function.update_of_ne ht', Function.update_of_ne ht', ← Option.some.inj hm']
        simp [ht']
    rw [hput, hadd, Function.update_idem, hsame]
    rfl

theorem plain_destroy (hs : w.Sound) (hd : destroy h w = .ok () w') :
    (w.plain h).isSome ∧ w'.plain = Function.update w.plain h none := by
  have hdestroyed := destroyed hs h
  rw [hd] at hdestroyed
  have hs' : w'.Sound := hdestroyed.transitions.sound hs
  cases hdestroyed with
  | bare hl hf =>
    obtain ⟨hloc, -⟩ := HandleTable.location_free hf
    refine ⟨by rw [plain_of_entry hs (entry_of_unplaced hl)]; rfl, ?_⟩
    refine plain_update hs hs' (m := .error (.invalidHandle h)) ?_
    rw [entry, hloc, entryAt_update, entryAt_of_error rfl]
    rfl
  | @vacated v table l a b r d hx hf =>
    obtain ⟨hloc, -⟩ := HandleTable.location_free hf
    refine ⟨by rw [plain_of_entry hs (entry_of_row hx.found hx.placed hx.row)]; rfl, ?_⟩
    refine plain_update hs hs' (m := .error (.invalidHandle h)) ?_
    have hentry := hx.entry hs
    rw [entry, hloc, entryAt_update, entryAt_of_error rfl]
    change Function.update v.entry h _ = _
    rw [hentry, Function.update_idem]

lemma plain_finite (hs : w.Sound) {m : TypeCode → Option Value} (hm : w.plain h = some m) :
    {t | (m t).isSome}.Finite := by
  rw [plain_eq hs] at hm
  obtain ⟨es, -, rfl⟩ := Option.map_eq_some_iff.mp hm
  refine (List.finite_toSet (es.map fun e => e.1.code)).subset fun t ht => ?_
  exact pick_isSome.mp ht

end World

namespace Session
variable {s : Session}

/-- In every session the store refines a plain map, `World.plain`, from live handles to
finite maps from component types to values. Every operation that succeeds changes the map at its
own handle only: a creation adds a handle that was not live, without components or with the
defaults of the given types; adding types keeps every value and gives the defaults of the types
that were missing; removing types deletes exactly those; putting a value makes it the value of the
unmarked type of its kind; destroying an entity takes its handle away. -/
theorem refines_plain_map (hs : s.Strained) :
    (∀ h m, s.world.plain h = some m → {t | (m t).isSome}.Finite) ∧
    (∀ h w', World.createEntity s.world = .ok h w' →
      s.world.plain h = none ∧
        w'.plain = Function.update s.world.plain h (some fun _ => none)) ∧
    (∀ ts h w', World.createWith ts s.world = .ok h w' →
      s.world.plain h = none ∧ (∀ t ∈ ts, (s.world.registry.initial t).isSome) ∧
        ∃ d, s.world.registry.Defaults d ∧ w'.plain = Function.update s.world.plain h
          (some fun t => if t ∈ ts then d t else none)) ∧
    (∀ h ts w', World.addComponents h ts s.world = .ok () w' →
      ∃ m, s.world.plain h = some m ∧ (∀ t ∈ ts, (s.world.registry.initial t).isSome) ∧
        ∃ d, s.world.registry.Defaults d ∧ w'.plain = Function.update s.world.plain h
          (some fun t => (m t).or (if t ∈ ts then d t else none))) ∧
    (∀ h ts w', World.removeComponents h ts s.world = .ok () w' →
      ∃ m, s.world.plain h = some m ∧
        w'.plain = Function.update s.world.plain h
          (some fun t => if t ∈ ts then none else m t)) ∧
    (∀ h k v w', World.put h k v s.world = .ok () w' →
      ∃ m t, s.world.plain h = some m ∧ w'.registry.lookup k .none = some t ∧
        w'.plain = Function.update s.world.plain h (some (Function.update m t (some v)))) ∧
    ∀ h w', World.destroy h s.world = .ok () w' →
      (s.world.plain h).isSome ∧ w'.plain = Function.update s.world.plain h none := by
  have hsound := hs.invariant.sound
  exact ⟨fun h m hm => World.plain_finite hsound hm,
    fun h w' hc => World.plain_create hsound hc,
    fun ts h w' hc => World.plain_createWith hsound hc,
    fun h ts w' ha => World.plain_add hsound ha,
    fun h ts w' hr => World.plain_remove hsound hr,
    fun h k v w' hp => World.plain_put hsound hp,
    fun h w' hd => World.plain_destroy hsound hd⟩

/-- The entity that was moved into the gap gets another note. -/
theorem refines_plain_map_sample :
    ∃ w', World.put ⟨1, 1⟩ note (.text "new") sample.world = .ok () w' ∧
      ∃ m t, sample.world.plain ⟨1, 1⟩ = some m ∧ w'.registry.lookup note .none = some t ∧
        w'.plain = Function.update sample.world.plain ⟨1, 1⟩
          (some (Function.update m t (some (.text "new")))) := by
  have hok : World.failure (World.put ⟨1, 1⟩ note (.text "new") sample.world) = none := by
    decide +kernel
  have hput := World.eq_ok_of_failure hok
  exact ⟨_, hput, (refines_plain_map strained_sample).2.2.2.2.2.1 _ _ _ _ hput⟩

end Session

end EntityStore
