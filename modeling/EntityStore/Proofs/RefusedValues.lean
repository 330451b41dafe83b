import Mathlib
import EntityStore.Proofs.Atomicity
import EntityStore.Proofs.Numbering
import EntityStore.Proofs.Refusals

/-!
# Values that are refused

Before the handle and the room for the component are looked at, storing a value registers its kind,
and registrations are never taken back. So a value that is refused leaves a registration behind if
its kind was new, and if the registry is full this is said even where the handle is invalid. All
else is as it was, but for an archetype without entities that is given up when memory runs out.
-/
namespace EntityStore

/-- Values of the kind can be stored in columns. -/
def Kind.Storable (k : Kind) : Prop := k.size ≤ Kind.sizeLimit ∧ k.align ≤ columnAlign

instance (k : Kind) : Decidable k.Storable := inferInstanceAs (Decidable (_ ∧ _))

namespace Registry
variable {r r' : Registry} {k : Kind} {m : Markers} {t : TypeCode}

/-- The kind is new under the marks, and the registry can take it. -/
structure Takes (r : Registry) (k : Kind) (m : Markers) : Prop where
  fresh : r.lookup k m = none
  storable : k.Storable
  room : r.size < r.maxTypes

lemma Takes.register (h : r.Takes k m) :
    r.register k m = .ok (TypeCode.ofParts r.size m (k.size = 0), r.push k m) :=
  register_eq_ok.mpr (.inr ⟨h.fresh, h.storable.1, h.storable.2, h.room, rfl, rfl⟩)

lemma Takes.serve (h : r.Takes k m) : (r.serve (k, m)).2 = r.push k m := by
  rw [serve_of_register h.register]

lemma serve_of_not_takes (h : ¬ r.Takes k m) : (r.serve (k, m)).2 = r := by
  cases hr : r.register k m with
  | error f => rw [serve_of_error hr]
  | ok x =>
    obtain ⟨t, r'⟩ := x
    rw [serve_of_register hr]
    rcases register_eq_ok.mp hr with ⟨-, rfl⟩ | ⟨hl, hsize, halign, hroom, -⟩
    · rfl
    · exact absurd ⟨hl, ⟨hsize, halign⟩, hroom⟩ h

lemma extends_serve (r : Registry) (q : Kind × Markers) : r.Extends (r.serve q).2 := by
  by_cases h : r.Takes q.1 q.2
  · rw [h.serve]
    exact fun t e he => registration_push he
  · rw [serve_of_not_takes h]
    exact .refl r

/-- A kind that can be stored is refused only by a full registry. -/
lemma register_of_full (hl : r.lookup k m = none) (hk : k.Storable) (hfull : r.maxTypes ≤ r.size) :
    r.register k m = .error (.capacityExceeded .registry r.maxTypes) := by
  have hsize : ¬ Kind.sizeLimit < k.size := not_lt.mpr hk.1
  have halign : ¬ columnAlign < k.align := not_lt.mpr hk.2
  have hentries : r.maxTypes ≤ r.entries.size := hfull
  simp only [register, hl, hsize, halign, hentries, if_false, if_true]

lemma ne_entity_of_register (h : r.Valid) (hk : r.lookup k .none ≠ some .entity)
    (hr : r.register k .none = .ok (t, r')) : t ≠ .entity := by
  rintro rfl
  obtain ⟨hvalid, hext, hl⟩ := register_spec h hr
  obtain ⟨name, hname⟩ := h.entity
  have hentity := ((lookup_eq_some hvalid).mp hl).2
  rw [hext _ _ hname, Except.ok.injEq] at hentity
  exact hk ((lookup_eq_some h).mpr ⟨rfl, hentity ▸ hname⟩)

end Registry

/-- One archetype, which had no entities, is gone. -/
def Catalogue.Shed (c c' : Catalogue) : Prop :=
  ∃ id a, c.get? id = some a ∧ a.count = 0 ∧ c'.get? = Function.update c.get? id none ∧
    c'.active + 1 = c.active

lemma Catalogue.Tidy.shed {c : Catalogue} {id : Nat} {a : Archetype} (h : c.Tidy)
    (ha : c.get? id = some a) (he : a.isEmpty = true) : c.Shed (c.recycle id) := by
  refine ⟨id, a, ha, decide_eq_true_iff.mp he, ?_, ?_⟩
  · rw [get_recycle, ha, Option.any_some, if_pos he]
  · rw [recycle_of_empty ha he]
    exact Nat.sub_add_cancel (h.active_pos ha)

namespace World
variable {w w' : World} {h : Handle} {k : Kind} {u : Value} {f : Fault}

lemma Sound.serve (hs : w.Sound) (q : Kind × Markers) :
    Sound { w with registry := (w.registry.serve q).2 } := by
  cases hr : w.registry.register q.1 q.2 with
  | error f => rwa [Registry.serve_of_error hr]
  | ok x =>
    rw [Registry.serve_of_register hr]
    exact (Transition.registered hr).sound hs

lemma Assigned.refusal (ha : Assigned w h k u (.error (.refused f) w')) :
    Refused { w with registry := (w.registry.serve (k, .none)).2 } f w' := by
  cases ha with
  | refused hk =>
    rw [Registry.serve_of_error hk]
    exact .types f
  | unchanged hk hr =>
    rw [Registry.serve_of_register hk]
    exact hr.refusal

/-- All that a value leaves behind when it is refused: the registration of its kind, and an
archetype less if there was no memory for a chunk and no entity in it. -/
theorem put_refused (hs : w.Sound) (hp : put h k u w = .error (.refused f) w') :
    w' = { w with
      registry := (w.registry.serve (k, .none)).2
      catalogue := w'.catalogue
      lifetimes := w.lifetimes.drop k u } ∧
    (w'.catalogue.get? = w.catalogue.get? ∧ w'.catalogue.active = w.catalogue.active ∨
      w.pool.take = .error f ∧ ∃ id a, w.catalogue.get? id = some a ∧ a.isEmpty = true ∧
        w'.catalogue = w.catalogue.recycle id) := by
  obtain ⟨v, ha, rfl⟩ := assigned_of_put_error hs hp
  obtain ⟨hrest, hcatalogue⟩ := ha.refusal.outcome (hs.serve (k, .none))
  refine ⟨?_, hcatalogue⟩
  rw [hrest]

lemma put_of_registered {t : TypeCode} {registry : Registry} (hh : w.handles.isValid h = false)
    (hk : w.registry.register k .none = .ok (t, registry)) (ht : t ≠ .entity) :
    ∃ w', put h k u w = .error (.refused (.invalidHandle h)) w' := by
  have hl : w.handles.location h = .error (.invalidHandle h) := by
    rw [HandleTable.location_eq_error]
    intro l hl
    rw [HandleTable.isValid_iff.mpr ⟨l, hl⟩] at hh
    cases hh
  have hv : Ascending.validate [t] = .ok () :=
    Ascending.validate_eq_ok.mpr ⟨by simpa using ht.symm, List.pairwise_singleton _ _⟩
  simp only [put, assign, hk, addComponents, retype, hv, typesOf, hl]
  exact ⟨_, rfl⟩

/-- Under an invalid handle no value is stored, but a full registry is noticed first. -/
lemma put_of_invalid (hs : w.Sound) (hh : w.handles.isValid h = false) (hk : k.Storable)
    (hne : w.registry.lookup k .none ≠ some .entity) :
    ∃ w', put h k u w = .error (.refused
      (if w.registry.lookup k .none = none ∧ w.registry.maxTypes ≤ w.registry.size then
        .capacityExceeded .registry w.registry.maxTypes
      else .invalidHandle h)) w' := by
  split_ifs with hfull
  · have hr := Registry.register_of_full hfull.1 hk hfull.2
    simp only [put, assign, hr]
    exact ⟨_, rfl⟩
  · obtain ⟨x, hr⟩ : ∃ x, w.registry.register k .none = .ok x := by
      cases hl : w.registry.lookup k .none with
      | some t => exact ⟨_, Registry.register_known hl⟩
      | none =>
        have hroom := not_le.mp fun hle => hfull ⟨hl, hle⟩
        exact ⟨_, Registry.Takes.register ⟨hl, hk, hroom⟩⟩
    exact put_of_registered hh hr (Registry.ne_entity_of_register hs.registry hne hr)

end World

namespace Session
variable {s : Session}

/-- In every session, whether memory is short or not: a value that is refused is dropped, and there
is one more registration if its kind was new and the registry could take it, but none otherwise.
Every registration and every other kind is found as before. Handles, archetypes with their
components, counters and the pool are as they were. Only when memory runs out an archetype that had
no entities may be gone, and that takes a session in which there was memory before. Under an invalid
handle no value is stored, and this is what it is refused for, unless its kind is new and the
registry is full. -/
theorem refused_values_leave_registrations (hs : s.Strained) (h : Handle) (k : Kind) (u : Value) :
    (∀ f w', World.put h k u s.world = .error (.refused f) w' →
      w' = { s.world with
        registry := w'.registry
        catalogue := w'.catalogue
        lifetimes := s.world.lifetimes.drop k u } ∧
      (s.Reachable → World.Intact s.world w') ∧
      (World.Intact s.world w' ∨
        f = .allocationFailed s.world.pool.chunkSize ∧ s.world.catalogue.Shed w'.catalogue) ∧
      s.world.registry.Extends w'.registry ∧
      (¬ s.world.registry.Takes k .none → w'.registry = s.world.registry) ∧
      (s.world.registry.Takes k .none →
        w'.registry.size = s.world.registry.size + 1 ∧
        (∃ t, w'.registry.lookup k .none = some t) ∧
        ∀ k' m, (k', m) ≠ (k, .none) →
          w'.registry.lookup k' m = s.world.registry.lookup k' m)) ∧
    (s.world.handles.isValid h = false → k.Storable →
      s.world.registry.lookup k .none ≠ some .entity →
      ∃ w', World.put h k u s.world = .error (.refused
        (if s.world.registry.lookup k .none = none ∧
            s.world.registry.maxTypes ≤ s.world.registry.size then
          .capacityExceeded .registry s.world.registry.maxTypes
        else .invalidHandle h)) w') := by
  have hw := hs.healthy
  refine ⟨fun f w' hp => ?_, World.put_of_invalid hw.sound⟩
  obtain ⟨hrest, hcatalogue⟩ := World.put_refused hw.sound hp
  have hregistry : w'.registry = (s.world.registry.serve (k, .none)).2 := by rw [hrest]
  refine ⟨?_, fun hr => ?_, ?_, ?_, fun hno => ?_, fun htakes => ⟨?_, ?_, fun k' m hne => ?_⟩⟩
  · rw [hregistry]
    exact hrest
  · exact (World.put_intact hw.sound hr.supplied hp).1
  · rcases hcatalogue with ⟨hget, hactive⟩ | ⟨htake, id, a, ha, he, hrecycle⟩
    · rw [hrest]
      exact .inl (.of_catalogue hget hactive)
    · obtain ⟨-, -, hfault⟩ := Pool.take_eq_error htake
      exact .inr ⟨hfault, hrecycle ▸ hw.consistent.tidy.shed ha he⟩
  · rw [hregistry]
    exact Registry.extends_serve _ _
  · rw [hregistry, Registry.serve_of_not_takes hno]
  · rw [hregistry, htakes.serve]
    exact Array.size_push _
  · rw [hregistry, htakes.serve, Registry.lookup_push, if_pos rfl]
    exact ⟨_, rfl⟩
  · rw [hregistry, htakes.serve, Registry.lookup_push, if_neg hne]

/-- An archetype that was opened in vain is given up when there is no chunk for it. -/
example :
    let w := (fragile.run [.operate (.createWith [⟨1⟩, ⟨2⟩]), .memory (some 0)]).world
    w.archetypeCount = 2 ∧
      World.failure (World.put ⟨0, 1⟩ brittle (.text "") w) =
        some (.refused (.allocationFailed 16384)) ∧
      (World.after (World.put ⟨0, 1⟩ brittle (.text "") w)).archetypeCount = 1 := by
  decide +kernel

/-- A new store, whose registry has room for one kind besides the handle column. -/
def narrow : Session := { world := { blank.world with registry := Registry.new "Handle" 2 } }

/-- The same store once a mark has been refused, for a handle that was never issued. -/
def narrowed : Session := narrow.move (.operate (.put ⟨5, 1⟩ mark (.bytes [1, 2, 3, 4])))

lemma reachable_narrow : narrow.Reachable := .create (.create .standard rfl) (.inl rfl)

lemma reachable_narrowed : narrowed.Reachable := reachable_narrow.move _ rfl

/-- The mark is registered, and nothing else is changed. As the registry is full then, a note is
refused for that and not for the handle. -/
theorem refused_values_leave_registrations_narrow :
    World.put ⟨5, 1⟩ mark (.bytes [1, 2, 3, 4]) narrow.world =
        .error (.refused (.invalidHandle ⟨5, 1⟩)) narrowed.world ∧
      World.Intact narrow.world narrowed.world ∧
      (∃ t, narrowed.world.registry.lookup mark .none = some t) ∧
      narrowed.world.registry.lookup note .none = narrow.world.registry.lookup note .none ∧
      ∃ w', World.put ⟨5, 1⟩ note (.text "lost") narrowed.world =
          .error (.refused (.capacityExceeded .registry 2)) w' ∧
        World.Intact narrowed.world w' ∧ w'.registry = narrowed.world.registry ∧
        w'.lifetimes.events = [.dropped note (.text "lost")] := by
  have hmark : World.put ⟨5, 1⟩ mark (.bytes [1, 2, 3, 4]) narrow.world =
      .error (.refused (.invalidHandle ⟨5, 1⟩)) narrowed.world :=
    World.eq_error_of_failure (by decide +kernel)
  obtain ⟨hfirst, -⟩ := refused_values_leave_registrations reachable_narrow.strained ⟨5, 1⟩ mark
    (.bytes [1, 2, 3, 4])
  obtain ⟨-, hintact, -, -, -, htaken⟩ := hfirst _ _ hmark
  obtain ⟨-, hlookup, hothers⟩ :=
    htaken ⟨by decide +kernel, by decide +kernel, by decide +kernel⟩
  obtain ⟨hsecond, hinvalid⟩ := refused_values_leave_registrations reachable_narrowed.strained
    ⟨5, 1⟩ note (.text "lost")
  obtain ⟨w', hnote⟩ := hinvalid (by decide +kernel) (by decide) (by decide +kernel)
  rw [if_pos (by decide +kernel)] at hnote
  obtain ⟨hrest, hintact', -, -, hsame, -⟩ := hsecond _ w' hnote
  have hfull : ¬ narrowed.world.registry.Takes note .none := fun htakes =>
    absurd htakes.room (by decide +kernel)
  have hdropped : (narrowed.world.lifetimes.drop note (.text "lost")).events =
      [.dropped note (.text "lost")] := by decide +kernel
  refine ⟨hmark, hintact reachable_narrow, hlookup, hothers note .none (by decide), w', hnote,
    hintact' reachable_narrowed, hsame hfull, ?_⟩
  rw [hrest]
  exact hdropped

/-- A refused value can change the size of the registry and what is looked up, and an invalid handle
need not be what it is refused for. -/
theorem invalid_handle_leaves_registration :
    narrow.Reachable ∧ narrow.world.handles.isValid ⟨5, 1⟩ = false ∧ mark.Storable ∧
      World.failure (World.put ⟨5, 1⟩ mark (.bytes [1, 2, 3, 4]) narrow.world) =
        some (.refused (.invalidHandle ⟨5, 1⟩)) ∧
      narrowed.world.registry.size ≠ narrow.world.registry.size ∧
      narrowed.world.registry.lookup mark .none ≠ narrow.world.registry.lookup mark .none ∧
      narrowed.Reachable ∧ narrowed.world.handles.isValid ⟨5, 1⟩ = false ∧ note.Storable ∧
      narrowed.world.registry.lookup note .none ≠ some .entity ∧
      World.failure (World.put ⟨5, 1⟩ note (.text "lost") narrowed.world) =
        some (.refused (.capacityExceeded .registry 2)) := by
  refine ⟨reachable_narrow, ?_, ?_, ?_, ?_, ?_, reachable_narrowed, ?_, ?_, ?_, ?_⟩ <;>
    decide +kernel

end Session

end EntityStore
