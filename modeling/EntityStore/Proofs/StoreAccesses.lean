import Mathlib
import EntityStore.Proofs.Healthy
import EntityStore.Proofs.PassAccesses

/-!
# What operations touch

The accesses of an operation are those of its steps, each on the store that the steps before it have
left, up to the step that fails or is interrupted. In a healthy store all of them are safe: the
steps that come before the entities are where their handles say leave the archetypes in order, and
nothing else is relied upon until then.
-/
namespace EntityStore

open Access

namespace World

/-- The handle column of a new archetype is set apart from the others, and the header of its chunks
from the values. -/
def draftAccesses (w : World) (ts : List TypeCode) : List Access :=
  match w.registry.registrations (TypeCode.entity :: ts) with
  | .error _ => []
  | .ok columns =>
      [item 0 columns.length, range 1 columns.length columns.length,
        lower w.settings.chunkSize Settings.headerSize]

def resolveAccesses (ts : List TypeCode) (w : World) : List Access :=
  w.catalogue.directory.getAccesses w.catalogue.hash ts ++
    match w.catalogue.find? ts with
    | some _ => []
    | none =>
        w.draftAccesses ts ++
          match w.draft ts with
          | .error _ => []
          | .ok a => w.catalogue.addAccesses a

/-- A row is written to the reserved place, or as much of it as could be made is dropped there and
the place is given up. -/
def fillAccesses (h : Handle) (id : Nat) (w : World) : List Access :=
  match w.catalogue.get? id with
  | none => []
  | some a =>
      match a.reserve w.pool w.version with
      | .error _ => w.catalogue.recycleAccesses id
      | .ok (b, pool) =>
          (b.opened w.version).rowAccesses w.settings.bufferSize a.count ++
            match (w.lifetimes.makeAll a.layout.kinds.tail).1 with
            | .error _ => (b.opened w.version).truncateAccesses pool
            | .ok _ => w.handles.recordAccesses h

def insertAccesses (h : Handle) (ts : List TypeCode) (w : World) : List Access :=
  w.resolveAccesses ts ++
    match resolve ts w with
    | .error _ _ => []
    | .ok id w => w.fillAccesses h id

def removeRowAccesses (l : Location) (w : World) : List Access :=
  match w.catalogue.get? l.archetype with
  | none => []
  | some a =>
      a.removeAccesses w.settings.bufferSize l.index w.pool ++
        match a.remove l.index w.pool w.version with
        | .ok (some d, _, _) => w.handles.recordAccesses d
        | _ => []

def relocateAccesses (h : Handle) (l : Location) (place : Option Location) (w : World) :
    List Access :=
  w.removeRowAccesses l ++
    match removeRow l w with
    | .error _ _ => []
    | .ok () w =>
        w.handles.recordAccesses h ++
          match setLocation h place w with
          | .error _ _ => []
          | .ok () w => w.catalogue.recycleAccesses l.archetype

def vacateAccesses (h : Handle) (l : Location) (w : World) : List Access :=
  match w.catalogue.get? l.archetype with
  | none => []
  | some a => a.rowAccesses w.settings.bufferSize l.index ++ w.relocateAccesses h l none

/-- Source and target are reached for together, and their types gone through. When the row in the
target is complete, the one in the source is taken out; what the new row holds does not matter for
that. -/
def transferAccesses (h : Handle) (l : Location) (id : Nat) (w : World) : List Access :=
  match w.catalogue.get? l.archetype, w.catalogue.get? id with
  | some source, some target =>
      pair l.archetype id w.catalogue.slots.size ++
        match target.reserve w.pool w.version with
        | .error _ => w.catalogue.recycleAccesses id
        | .ok (b, pool) =>
            ((b.opened w.version).rowAccesses w.settings.bufferSize target.count ++
                Ascending.mergeAccesses true source.codes b.codes) ++
              let m := Ascending.pairUp source.codes b.codes
              match (w.lifetimes.makeAll ((freshColumns m b).map fun cj => cj.1.kind)).1 with
              | .error _ => (b.opened w.version).truncateAccesses pool
              | .ok _ =>
                  source.rowAccesses w.settings.bufferSize l.index ++
                    relocateAccesses h l (some ⟨id, target.count⟩)
                      { w with catalogue := w.catalogue.set id (b.opened w.version), pool }
  | _, _ => pair l.archetype id w.catalogue.slots.size

def moveAccesses (h : Handle) (ts : List TypeCode) (w : World) : List Access :=
  match w.handles.location h with
  | .error _ => []
  | .ok none => if ts.isEmpty then [] else w.insertAccesses h ts
  | .ok (some l) =>
      if ts.isEmpty then w.vacateAccesses h l
      else
        w.resolveAccesses ts ++
          match resolve ts w with
          | .error _ _ => []
          | .ok id w => if id = l.archetype then [] else w.transferAccesses h l id

/-- The types of an entity are those of its archetype. -/
def typesAccesses (h : Handle) (w : World) : List Access :=
  match w.handles.location h with
  | .ok (some l) => ((w.catalogue.get? l.archetype).map Catalogue.typesAccess).toList
  | _ => []

def retypeAccesses (pass : List TypeCode → List TypeCode → List Access)
    (target : List TypeCode → List TypeCode → List TypeCode) (h : Handle) (ts : List TypeCode)
    (w : World) : List Access :=
  Ascending.orderAccesses ts ++
    match Ascending.validate ts with
    | .error _ => []
    | .ok () =>
        w.typesAccesses h ++
          match w.typesOf h with
          | .error _ => []
          | .ok current =>
              pass current ts ++
                if (target current ts).length = current.length then []
                else w.moveAccesses h (target current ts)

def addAccesses (h : Handle) (ts : List TypeCode) (w : World) : List Access :=
  w.retypeAccesses Ascending.unionAccesses Ascending.union h ts

def removeAccesses (h : Handle) (ts : List TypeCode) (w : World) : List Access :=
  w.retypeAccesses Ascending.differenceAccesses Ascending.difference h ts

def createWithAccesses (ts : List TypeCode) (w : World) : List Access :=
  Ascending.orderAccesses ts ++
    match Ascending.validate ts with
    | .error _ => []
    | .ok () =>
        w.handles.allocateAccesses ++
          match createEntity w with
          | .error _ _ => []
          | .ok h w =>
              if ts.isEmpty then []
              else
                w.insertAccesses h ts ++
                  match insert h ts w with
                  | .error (.refused _) w => w.handles.freeAccesses h
                  | _ => []

def destroyAccesses (h : Handle) (w : World) : List Access :=
  match w.handles.location h with
  | .error _ => []
  | .ok none => w.handles.freeAccesses h
  | .ok (some l) =>
      w.vacateAccesses h l ++
        match vacate h l w with
        | .error _ _ => []
        | .ok () w => w.handles.freeAccesses h

/-- One component of an entity, to read or to write. -/
def componentAccesses (h : Handle) (t : TypeCode) (w : World) : List Access :=
  match w.handles.location h with
  | .ok (some l) =>
      match w.catalogue.get? l.archetype with
      | none => []
      | some a =>
          match a.layout.indexOf t with
          | none => []
          | some j => a.cellAccesses w.settings.bufferSize j l.index
  | _ => []

def exchangeAccesses (h : Handle) (k : Kind) (w : World) : List Access :=
  match w.registry.lookup k .none with
  | none => []
  | some t => w.componentAccesses h t

def putAccesses (h : Handle) (k : Kind) (w : World) : List Access :=
  match w.registry.register k .none with
  | .error _ => []
  | .ok (t, registry) =>
      addAccesses h [t] { w with registry } ++
        match addComponents h [t] { w with registry } with
        | .error _ _ => []
        | .ok () w => w.exchangeAccesses h k

variable {w v w' : World} {h : Handle} {l : Location} {m : Option Location} {id : Nat}
  {ts : List TypeCode} {a : Archetype}

namespace Stocked

lemma of_handles (hw : w.Stocked) (handles : HandleTable) : Stocked { w with handles } :=
  ⟨hw.catalogue, hw.tidy, hw.lends, hw.aligned⟩

lemma setLocation (hw : w.Stocked) (hv : World.setLocation h m w = .ok () v) : v.Stocked := by
  unfold World.setLocation at hv
  cases hs : w.handles.setLocation h m with
  | error f => simp [hs] at hv
  | ok handles =>
    rw [hs] at hv
    obtain rfl := (EStateM.Result.ok.inj hv).2
    exact hw.of_handles handles

section
variable (hw : w.Stocked)
include hw

lemma safe_recycle (id : Nat) : Safe (w.catalogue.recycleAccesses id) :=
  Catalogue.safe_recycle hw.catalogue.valid hw.tidy id

lemma packed (ha : w.catalogue.get? id = some a) : a.Packed := hw.catalogue.packed id a ha

/-- The archetype with a new row at its end, for which a place was reserved, takes its place. -/
lemma opened (ha : w.catalogue.get? id = some a) {b : Archetype} {pool : Pool}
    (hr : a.reserve w.pool w.version = .ok (b, pool)) :
    Stocked { w with catalogue := w.catalogue.set id (b.opened w.version), pool } := by
  have hreshaped := (Archetype.reshaped_reserve hr).trans
    (Archetype.reshaped_commit b ⟨.null, b.layout.kinds.tail.map fun k => k.default 0⟩ w.version
      pool)
  exact hw.reshape ha ((hw.packed ha).opened hr (hw.columns_ne_nil ha)).1 hreshaped rfl rfl rfl

lemma safe_fill (h : Handle) (id : Nat) : Safe (w.fillAccesses h id) := by
  unfold fillAccesses
  cases ha : w.catalogue.get? id with
  | none => exact safe_nil
  | some a =>
    dsimp only
    have hcols := hw.columns_ne_nil ha
    obtain ⟨n, hlends⟩ := hw.lends_chunks ha
    cases hr : a.reserve w.pool w.version with
    | error f => exact hw.safe_recycle id
    | ok q =>
      refine safe_append.mpr ⟨(hw.packed ha).safe_reserved hr hcols (hw.fits ha), ?_⟩
      split
      · exact (hw.packed ha).safe_withdraw hr hcols hlends
      · exact HandleTable.safe_recordAccesses _ h

section Row
variable (ha : w.catalogue.get? l.archetype = some a) (hi : l.index < a.count)
include ha hi

lemma safe_removeRow : Safe (w.removeRowAccesses l) := by
  obtain ⟨n, hlends⟩ := hw.lends_chunks ha
  unfold removeRowAccesses
  rw [ha]
  refine safe_append.mpr ⟨(hw.packed ha).safe_remove (hw.fits ha) hi hlends, ?_⟩
  split
  · exact HandleTable.safe_recordAccesses _ _
  · exact safe_nil

/-- Taking a row out leaves the archetypes in order. -/
lemma removeRow (hv : World.removeRow l w = .ok () v) : v.Stocked := by
  unfold World.removeRow at hv
  rw [Catalogue.get_eq_ok.mpr ha] at hv
  obtain ⟨d, b, pool, hr, hpacked, -⟩ :=
    Archetype.remove_spec (p := w.pool) (v := w.version) (hw.packed ha) (by
      rwa [← (hw.packed ha).counted])
  have hset : Stocked { w with catalogue := w.catalogue.set l.archetype b, pool } :=
    hw.reshape ha hpacked (Archetype.reshaped_remove hr) rfl rfl rfl
  simp only [hr] at hv
  cases d with
  | none =>
    obtain rfl := (EStateM.Result.ok.inj hv).2
    exact hset
  | some d => exact hset.setLocation hv

lemma safe_relocate (h : Handle) (m : Option Location) : Safe (w.relocateAccesses h l m) := by
  refine safe_append.mpr ⟨hw.safe_removeRow ha hi, ?_⟩
  cases hrow : World.removeRow l w with
  | error => exact safe_nil
  | ok _ v =>
    refine safe_append.mpr ⟨HandleTable.safe_recordAccesses _ h, ?_⟩
    cases hset : World.setLocation h m v with
    | error => exact safe_nil
    | ok _ u => exact ((hw.removeRow ha hi hrow).setLocation hset).safe_recycle l.archetype

lemma safe_vacate (h : Handle) : Safe (w.vacateAccesses h l) := by
  unfold vacateAccesses
  rw [ha]
  exact safe_append.mpr ⟨(hw.packed ha).safe_row (hw.fits ha) hi, hw.safe_relocate ha hi h none⟩

/-- The other archetype stays where it is when the row is written to the target. -/
lemma safe_transfer (h : Handle) (hne : l.archetype ≠ id) {b : Archetype}
    (hb : w.catalogue.get? id = some b) : Safe (w.transferAccesses h l id) := by
  have hcols := hw.columns_ne_nil hb
  obtain ⟨n, hlends⟩ := hw.lends_chunks hb
  unfold transferAccesses
  simp only [ha, hb]
  refine safe_append.mpr ⟨safe_pair (Catalogue.lt_size ha) (Catalogue.lt_size hb) hne, ?_⟩
  cases hr : b.reserve w.pool w.version with
  | error f => exact hw.safe_recycle id
  | ok q =>
    have hreserved := (hw.packed hb).safe_reserved (v := w.version) hr hcols (hw.fits hb)
    refine safe_append.mpr ⟨safe_append.mpr ⟨hreserved, Ascending.safe_merge true _ _⟩, ?_⟩
    split
    · exact (hw.packed hb).safe_withdraw hr hcols hlends
    · have hsource : (w.catalogue.set id (q.1.opened w.version)).get? l.archetype = some a := by
        rw [Catalogue.get_set hb, Function.update_of_ne hne, ha]
      refine safe_append.mpr ⟨(hw.packed ha).safe_row (hw.fits ha) hi, ?_⟩
      exact (hw.opened hb hr).safe_relocate hsource hi h _

end Row

end

end Stocked

namespace Healthy
variable (hw : w.Healthy)
include hw

lemma safe_draft (ts : List TypeCode) : Safe (w.draftAccesses ts) := by
  have hheader := hw.tuned.headerSize_le
  unfold draftAccesses
  cases hr : w.registry.registrations (.entity :: ts) with
  | error f => exact safe_nil
  | ok columns =>
    have hcodes := congrArg List.length (Registry.codes_of_registrations hr)
    rw [List.length_map, List.length_cons] at hcodes
    simp only [safe_cons, within_item, within_range, within_lower, safe_nil, and_true]
    omega

lemma safe_resolve (ts : List TypeCode) : Safe (w.resolveAccesses ts) := by
  have hvalid := hw.sound.catalogue.valid
  refine safe_append.mpr ⟨hvalid.directory.safe_get ts, ?_⟩
  split
  · exact safe_nil
  · refine safe_append.mpr ⟨hw.safe_draft ts, ?_⟩
    split
    · exact safe_nil
    · exact Catalogue.safe_add hvalid hw.consistent.tidy _

lemma resolve (hne : ts ≠ []) (hr : World.resolve ts w = .ok id v) : v.Healthy := by
  obtain ⟨a, ho, -⟩ := resolve_opened hw.sound hne hr
  exact hw.opened ho

lemma safe_insert (h : Handle) (hne : ts ≠ []) : Safe (w.insertAccesses h ts) := by
  refine safe_append.mpr ⟨hw.safe_resolve ts, ?_⟩
  cases hr : World.resolve ts w with
  | error => exact safe_nil
  | ok id v => exact (hw.resolve hne hr).stocked.safe_fill h id

/-- A handle that has a place is in the archetype there. -/
lemma located (hl : w.handles.location h = .ok (some l)) :
    ∃ a, w.catalogue.get? l.archetype = some a ∧ l.index < a.count := by
  obtain ⟨a, r, ha, hp, hr, -⟩ := hw.sound.get hl
  exact ⟨a, ha, hp.counted ▸ (List.getElem?_eq_some_iff.mp hr).1⟩

lemma safe_move (h : Handle) (ts : List TypeCode) : Safe (w.moveAccesses h ts) := by
  unfold moveAccesses
  cases hl : w.handles.location h with
  | error f => exact safe_nil
  | ok m =>
    cases m with
    | none =>
      dsimp only
      split_ifs with ht
      · exact safe_nil
      · exact hw.safe_insert h (by simpa using ht)
    | some l =>
      obtain ⟨a, ha, hi⟩ := hw.located hl
      dsimp only
      split_ifs with ht
      · exact hw.stocked.safe_vacate ha hi h
      · refine safe_append.mpr ⟨hw.safe_resolve ts, ?_⟩
        cases hr : World.resolve ts w with
        | error => exact safe_nil
        | ok id v =>
          dsimp only
          split_ifs with hid
          · exact safe_nil
          · obtain ⟨b, ho, -⟩ := resolve_opened hw.sound (by simpa using ht) hr
            have hv := hw.opened ho
            obtain ⟨a', ha', hi'⟩ := hv.located (by rw [ho.handles, hl])
            exact hv.stocked.safe_transfer ha' hi' h (Ne.symm hid) ho.get

lemma safe_types (h : Handle) : Safe (w.typesAccesses h) := by
  unfold typesAccesses
  split
  next l hl =>
    obtain ⟨a, ha, -⟩ := hw.located hl
    simpa [ha] using hw.consistent.tidy.typesAccess ha
  next => exact safe_nil

lemma safe_retype {pass : List TypeCode → List TypeCode → List Access}
    (hpass : ∀ xs ys, Safe (pass xs ys)) (g : List TypeCode → List TypeCode → List TypeCode)
    (h : Handle) (ts : List TypeCode) : Safe (w.retypeAccesses pass g h ts) := by
  refine safe_append.mpr ⟨Ascending.safe_order ts, ?_⟩
  split
  next => exact safe_nil
  next =>
    refine safe_append.mpr ⟨hw.safe_types h, ?_⟩
    split
    next => exact safe_nil
    next =>
      refine safe_append.mpr ⟨hpass _ ts, ?_⟩
      split_ifs
      · exact safe_nil
      · exact hw.safe_move h _

lemma safe_add (h : Handle) (ts : List TypeCode) : Safe (w.addAccesses h ts) :=
  hw.safe_retype Ascending.safe_union _ h ts

lemma safe_remove (h : Handle) (ts : List TypeCode) : Safe (w.removeAccesses h ts) :=
  hw.safe_retype (fun xs ys => Ascending.safe_scan true ys xs) _ h ts

lemma safe_allocate : Safe w.handles.allocateAccesses := by
  obtain ⟨es, hes⟩ := hw.chronicle
  exact hes.safe_allocate

lemma safe_free (h : Handle) : Safe (w.handles.freeAccesses h) := by
  obtain ⟨es, hes⟩ := hw.chronicle
  exact hes.safe_free h

lemma safe_createWith (ts : List TypeCode) : Safe (w.createWithAccesses ts) := by
  unfold createWithAccesses createEntity
  refine safe_append.mpr ⟨Ascending.safe_order ts, ?_⟩
  split
  next => exact safe_nil
  next =>
    refine safe_append.mpr ⟨hw.safe_allocate, ?_⟩
    cases ha : w.handles.allocate with
    | error f => exact safe_nil
    | ok q =>
      have hv := hw.allocated ha
      dsimp only
      split_ifs with ht
      · exact safe_nil
      · refine safe_append.mpr ⟨hv.safe_insert q.1 (by simpa using ht), ?_⟩
        split
        next f u hi =>
          rw [handles_insert_refused hi]
          exact hv.safe_free q.1
        next => exact safe_nil

lemma vacate (hv : World.vacate h l w = .ok () v)
    (hl : w.handles.location h = .ok (some l)) : v.Healthy := by
  obtain ⟨a, b, r, d, u, hx, hu⟩ := vacate_eq hw.sound hl
  obtain rfl : u = v := (EStateM.Result.ok.inj (hu.symm.trans hv)).2
  have hmoved : Moved w h [] u := .away rfl hx
  have hsteady : Steady w u := by
    have hs := steady_vacate (h := h) (l := l) (w := w) rfl
    rwa [hv] at hs
  exact hw.transitions (Transition.moved hmoved).single hsteady

lemma safe_destroy (h : Handle) : Safe (w.destroyAccesses h) := by
  unfold destroyAccesses
  cases hl : w.handles.location h with
  | error f => exact safe_nil
  | ok m =>
    cases m with
    | none => exact hw.safe_free h
    | some l =>
      obtain ⟨a, ha, hi⟩ := hw.located hl
      refine safe_append.mpr ⟨hw.stocked.safe_vacate ha hi h, ?_⟩
      cases hv : World.vacate h l w with
      | error => exact safe_nil
      | ok _ v => exact (hw.vacate hv hl).safe_free h

lemma safe_component (h : Handle) (t : TypeCode) : Safe (w.componentAccesses h t) := by
  unfold componentAccesses
  split
  next l hl =>
    obtain ⟨a, ha, hi⟩ := hw.located hl
    rw [ha]
    dsimp only
    split
    next => exact safe_nil
    next j hj =>
      exact (hw.stocked.packed ha).safe_cell (hw.stocked.fits ha) hi (Layout.indexOf_lt hj)
  next => exact safe_nil

lemma safe_exchange (h : Handle) (k : Kind) : Safe (w.exchangeAccesses h k) := by
  unfold exchangeAccesses
  split
  · exact safe_nil
  · exact hw.safe_component h _

lemma retype (g : List TypeCode → List TypeCode → List TypeCode) (h : Handle)
    (ts : List TypeCode) : (after (World.retype g h ts w)).Healthy :=
  hw.transitions (retyped hw.sound g h ts).transitions (steady_retype g h ts w)

lemma safe_put (h : Handle) (k : Kind) : Safe (w.putAccesses h k) := by
  unfold putAccesses
  split
  next => exact safe_nil
  next t registry hk =>
    have hv := hw.registered hk
    refine safe_append.mpr ⟨hv.safe_add h [t], ?_⟩
    have hadded := hv.retype Ascending.union h [t]
    rw [← addComponents] at hadded
    cases hr : addComponents h [t] { w with registry } with
    | error => exact safe_nil
    | ok _ u =>
      rw [hr] at hadded
      exact hadded.safe_exchange h k

end Healthy

end World

end EntityStore
