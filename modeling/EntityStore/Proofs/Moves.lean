import Mathlib
import EntityStore.World.Components
import EntityStore.Proofs.Accounts

/-!
# Moving an entity to given types

Moving resolves the types, which may add an archetype, and then places the entity. The theorems
here list the ways in which that can end. In each of them either nothing was opened or the opened
archetype is the one that the placement is about.
-/
namespace EntityStore.World

variable {w v w' : World} {h : Handle} {l : Location} {id : Nat} {ts : List TypeCode}
  {a b : Archetype} {f : Fault}

/-- An archetype was there or has been added. -/
inductive Opened (w : World) : World → Nat → Archetype → Prop
  | found {id : Nat} {a : Archetype} (h : w.catalogue.get? id = some a) : Opened w w id a
  | added {v : World} {a : Archetype} (h : Added w v a) : Opened w v w.catalogue.nextId a

namespace Opened

lemma get_eq (ho : Opened w v id a) :
    v.catalogue.get? = Function.update w.catalogue.get? id (some a) := by
  cases ho with
  | found h => rw [← h, Function.update_eq_self]
  | added h => exact (Catalogue.get_add h.add).2

lemma get (ho : Opened w v id a) : v.catalogue.get? id = some a := by
  rw [ho.get_eq, Function.update_self]

lemma eq_of_get (ho : Opened w v id a) (hb : w.catalogue.get? id = some b) : b = a ∧ v = w := by
  cases ho with
  | found ha => exact ⟨Option.some.inj (hb.symm.trans ha), rfl⟩
  | added ha =>
    rw [(Catalogue.get_add ha.add).1] at hb
    cases hb

lemma rest (ho : Opened w v id a) : v = { w with catalogue := v.catalogue } := by
  cases ho with
  | found h => rfl
  | added h => exact h.rest

lemma sound (hs : w.Sound) (ho : Opened w v id a) : v.Sound := by
  cases ho with
  | found h => exact hs
  | added h => exact h.sound hs

lemma entry (hs : w.Sound) (ho : Opened w v id a) : v.entry = w.entry := by
  cases ho with
  | found h => rfl
  | added h => exact h.entry hs

lemma balances (ho : Opened w v id a) : Balances w v 0 := by
  cases ho with
  | found h => exact Balances.refl w
  | added h => exact h.balances

lemma handles (ho : Opened w v id a) : v.handles = w.handles := by rw [ho.rest]

lemma registry (ho : Opened w v id a) : v.registry = w.registry := by rw [ho.rest]

lemma lifetimes (ho : Opened w v id a) : v.lifetimes = w.lifetimes := by rw [ho.rest]

lemma kept (ho : Opened w v id a) : Kept w v := by
  rw [ho.rest]
  exact ⟨rfl, rfl, rfl, .refl _⟩

end Opened

lemma resolve_opened (hs : w.Sound) (hne : ts ≠ []) (hr : resolve ts w = .ok id v) :
    ∃ a, Opened w v id a ∧ a.signature = ts := by
  rcases resolve_eq_ok hs hne hr with ⟨rfl, a, ha, hsig⟩ | ⟨a, ha, rfl, hsig⟩
  · exact ⟨a, .found ha, hsig⟩
  · exact ⟨a, .added ha, hsig⟩

/-- Why an operation on types was refused: the types were, or there was no room for them. -/
inductive Refused (w : World) : Fault → World → Prop
  | types (f : Fault) : Refused w f w
  | room {f : Fault} {v : World} {id : Nat} {a : Archetype} (ho : Opened w v id a)
      (hr : a.reserve v.pool v.version = .error f) : Refused w f (v.recycle id)

/-- The ways in which a stored entity can be moved successfully. -/
inductive Moved (w : World) (h : Handle) (ts : List TypeCode) : World → Prop
  | away {l : Location} {a b : Archetype} {r : Row} {d : Handle} {w' : World} (ht : ts = [])
      (hx : Vacated w w' h l a b r d) : Moved w h ts w'
  | still {l : Location} {a : Archetype} (hl : w.handles.location h = .ok (some l))
      (ha : w.catalogue.get? l.archetype = some a) (hsig : a.signature = ts) : Moved w h ts w
  | across {l : Location} {id : Nat} {v w' : World} {a a' b b' : Archetype} {r : Row} {d : Handle}
      (ho : Opened w v id b) (hsig : b.signature = ts)
      (hx : Transferred v w' h l id a a' b b' r d) : Moved w h ts w'

lemma Moved.kept (hm : Moved w h ts w') : Kept w w' := by
  cases hm with
  | away ht hx => exact hx.kept
  | still hl ha hsig => exact .refl w
  | across ho hsig hx => exact ho.kept.trans hx.kept

/-- The ways in which bringing an entity to given types can end. -/
inductive Moving (w : World) (h : Handle) (ts : List TypeCode) :
    EStateM.Result Failure World Unit → Prop
  | refused {f : Fault} {w' : World} (hr : Refused w f w') : Moving w h ts (.error (.refused f) w')
  | stalled {v w' : World} {id : Nat} {a b : Archetype} {es : List (Registration × Value)}
      (ho : Opened w v id a) (hsig : a.signature = ts) (he : w.entry h = .ok es)
      (hx : Stalled v w' id a b (lacking es a.layout.columns.tail)) :
      Moving w h ts (.error .aborted w')
  | filled {v w' : World} {id : Nat} {a b : Archetype} (ho : Opened w v id a)
      (hsig : a.signature = ts) (hx : Filled v w' h id a b) : Moving w h ts (.ok () w')
  | absent (hl : w.handles.location h = .ok none) (ht : ts = []) : Moving w h ts (.ok () w)
  | moved {w' : World} (hm : Moved w h ts w') : Moving w h ts (.ok () w')

lemma kinds_eq_lacking (a : Archetype) :
    a.layout.kinds.tail = lacking [] a.layout.columns.tail := by
  simp [Layout.kinds, lacking]

theorem moving_insert (hs : w.Sound) (hne : ts ≠ []) (hl : w.handles.location h = .ok none) :
    Moving w h ts (insert h ts w) := by
  unfold insert
  cases hr : resolve ts w with
  | error e w' =>
    obtain ⟨rfl, f, rfl⟩ := resolve_eq_error hr
    exact .refused (.types f)
  | ok id v =>
    obtain ⟨a, ho, hsig⟩ := resolve_opened hs hne hr
    rcases fill_cases (ho.sound hs) (ho.get) (by rw [ho.handles, hl]) with
      ⟨f, hf, hfill⟩ | ⟨b, w', hx, hfill⟩ | ⟨b, w', hx, hfill⟩
    · simp only [hfill]
      exact .refused (.room ho hf)
    · simp only [hfill]
      rw [kinds_eq_lacking] at hx
      exact .stalled ho hsig (entry_of_unplaced hl) hx
    · simp only [hfill]
      exact .filled ho hsig hx

theorem moving_stored (hs : w.Sound) (hl : w.handles.location h = .ok (some l)) :
    Moving w h ts (move h ts w) := by
  unfold move
  rw [hl]
  by_cases ht : ts = []
  · subst ht
    obtain ⟨a, b, r, d, w', hx, hvacate⟩ := vacate_eq hs hl
    simp only [List.isEmpty_nil, if_true, hvacate]
    exact .moved (.away rfl hx)
  · have hempty : ts.isEmpty = false := by simpa using ht
    simp only [hempty, Bool.false_eq_true, if_false]
    cases hr : resolve ts w with
    | error e w' =>
      obtain ⟨rfl, f, rfl⟩ := resolve_eq_error hr
      exact .refused (.types f)
    | ok id v =>
      obtain ⟨b, ho, hsig⟩ := resolve_opened hs ht hr
      have hget := ho.get
      have hlv : v.handles.location h = .ok (some l) := by rw [ho.handles, hl]
      by_cases hid : id = l.archetype
      · -- the entity is in it already, so it was there
        obtain ⟨a, r, ha, -⟩ := hs.get hl
        obtain ⟨-, rfl⟩ := ho.eq_of_get (hid ▸ ha)
        rw [hid] at hget
        simp only [hid, if_true]
        exact .moved (.still hl hget hsig)
      · simp only [hid, if_false]
        rcases transfer_cases (ho.sound hs) hlv hget (Ne.symm hid) with
          ⟨f, hf, ht⟩ | ⟨a, r, b', w', ha, hr, hx, ht⟩ | ⟨a, a', b', r, d, w', hx, ht⟩
        · rw [ht]
          exact .refused (.room ho hf)
        · rw [ht]
          refine .stalled ho hsig ?_ hx
          rw [← ho.entry hs, entry_of_row ha hlv hr]
        · rw [ht]
          exact .moved (.across ho hsig hx)

/-- Every way in which bringing an entity to given types can end. -/
theorem moving (hs : w.Sound) (h : Handle) (ts : List TypeCode) :
    Moving w h ts (move h ts w) := by
  cases hl : w.handles.location h with
  | error f =>
    simp only [move, hl]
    exact .refused (.types f)
  | ok m =>
    cases m with
    | some l => exact moving_stored hs hl
    | none =>
      simp only [move, hl]
      split_ifs with ht
      · exact .absent hl (by simpa using ht)
      · exact moving_insert hs (by simpa using ht) hl

/-- What a successful move makes of the entity's components. -/
theorem Moved.entry (hs : w.Sound) (hm : Moved w h ts w') :
    ∃ es cs, w.entry h = .ok es ∧ w.registry.registrations ts = .ok cs ∧
      (w'.entry = Function.update w.entry h (.ok (fitted w.lifetimes.count es cs)) ∨
        w' = w ∧ ts = es.map fun e => e.1.code) := by
  cases hm with
  | away ht hx =>
    refine ⟨_, [], entry_of_row hx.found hx.placed hx.row, by rw [ht]; rfl, .inl ?_⟩
    exact hx.entry hs
  | still hl ha hsig =>
    obtain ⟨a, r, ha', hp, hr, -⟩ := hs.get hl
    obtain rfl : a = _ := Option.some.inj (ha'.symm.trans ha)
    obtain ⟨first, cs, hcols, -, hcs⟩ := (hs.catalogue.drafted _ a ha).columns
    have hlen := hp.length_values (List.mem_of_getElem? hr)
    exact ⟨_, cs, entry_of_row ha hl hr, hsig ▸ hcs,
      .inr ⟨rfl, by rw [Archetype.codes_labelled hlen, hsig]⟩⟩
  | across ho hsig hx =>
    have hv := ho.sound hs
    obtain ⟨first, cs, hcols, -, hcs⟩ := (hv.catalogue.drafted _ _ hx.target).columns
    have hentry := entry_of_row hx.source hx.placed hx.row
    rw [ho.entry hs] at hentry
    refine ⟨_, cs, hentry, by rw [← ho.registry, ← hsig, hcs], .inl ?_⟩
    rw [hx.entry hv, ho.entry hs, ho.lifetimes, hcols, List.tail_cons]

end EntityStore.World
