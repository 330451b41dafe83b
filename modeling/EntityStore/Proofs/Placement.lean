import Mathlib
import EntityStore.Proofs.Carrying
import EntityStore.Proofs.Lifetimes
import EntityStore.Proofs.Reshaping
import EntityStore.Proofs.Sound

/-!
# What placing an entity can do

Each step of placement, run on a sound store, ends in one of a few ways. A structure for each way
says what became of the store, and one theorem for each step lists its ways in full. Soundness and
all else that is said about placement is read off from these.
-/
namespace EntityStore.World

open Lifetimes

variable {w w' : World} {h : Handle} {l : Location} {id : Nat} {ts : List TypeCode}
  {a b : Archetype} {f : Fault}

structure Kept (w w' : World) : Prop where
  registry : w'.registry = w.registry
  settings : w'.settings = w.settings
  version : w'.version = w.version
  pool : w.pool.Akin w'.pool

lemma Kept.refl (w : World) : Kept w w := ⟨rfl, rfl, rfl, .refl _⟩

lemma Kept.trans {v : World} (h : Kept w v) (h' : Kept v w') : Kept w w' :=
  ⟨h'.registry.trans h.registry, h'.settings.trans h.settings, h'.version.trans h.version,
    h.pool.trans h'.pool⟩

/-- A new archetype without entities. -/
structure Added (w w' : World) (a : Archetype) : Prop where
  add : w.catalogue.add a = .ok w'.catalogue
  signature_ne : a.signature ≠ []
  drafted : a.Drafted w.registry w.settings w.catalogue.nextId
  chunks : a.chunks = []
  count : a.count = 0
  rest : w' = { w with catalogue := w'.catalogue }

theorem resolve_eq_ok (hs : w.Sound) (hne : ts ≠ []) (hr : resolve ts w = .ok id w') :
    (w' = w ∧ ∃ a, w.catalogue.get? id = some a ∧ a.signature = ts) ∨
      ∃ a, w.Added w' a ∧ id = w.catalogue.nextId ∧ a.signature = ts := by
  unfold resolve at hr
  cases hf : w.catalogue.find? ts with
  | some i =>
    simp only [hf, EStateM.Result.ok.injEq] at hr
    obtain ⟨rfl, rfl⟩ := hr
    exact .inl ⟨rfl, (Catalogue.find_eq_some hs.catalogue.valid).mp hf⟩
  | none =>
    cases hd : w.draft ts with
    | error f => simp [hf, hd] at hr
    | ok a =>
      cases hc : w.catalogue.add a with
      | error f => simp [hf, hd, hc] at hr
      | ok c =>
        simp only [hf, hd, hc, EStateM.Result.ok.injEq] at hr
        obtain ⟨rfl, rfl⟩ := hr
        obtain ⟨hdraft, hsig, hchunks, hcount⟩ := draft_eq_ok hd
        exact .inr ⟨a, ⟨hc, hsig ▸ hne, hdraft, hchunks, hcount, rfl⟩, hdraft.id_eq, hsig⟩

theorem resolve_eq_error {e : Failure} (hr : resolve ts w = .error e w') :
    w' = w ∧ ∃ f, e = .refused f := by
  unfold resolve at hr
  cases hf : w.catalogue.find? ts with
  | some i => simp [hf] at hr
  | none =>
    cases hd : w.draft ts with
    | error f =>
      simp only [hf, hd, EStateM.Result.error.injEq] at hr
      exact ⟨hr.2.symm, f, hr.1.symm⟩
    | ok a =>
      cases hc : w.catalogue.add a with
      | error f =>
        simp only [hf, hd, hc, EStateM.Result.error.injEq] at hr
        exact ⟨hr.2.symm, f, hr.1.symm⟩
      | ok c => simp [hf, hd, hc] at hr

/-- A default could not be made, and those made before it were dropped again. -/
structure Stalled (w w' : World) (id : Nat) (a b : Archetype) (ks : List Kind) : Prop where
  found : w.catalogue.get? id = some a
  room : ∃ q js, a.reserve w.pool w.version = .ok q ∧
    q.1.abandon js q.2 w.version = (b, w'.pool)
  packed : b.Packed
  rows : b.rows = a.rows
  blank : b.blank = a.blank
  catalogue : w'.catalogue = w.catalogue.set id b
  handles : w'.handles = w.handles
  events : ∃ n, w.lifetimes.Failing ks n ∧
    w'.lifetimes.events = w.lifetimes.events ++
      makeEvents (defaults w.lifetimes.count (ks.take n)) ++
      dropEvents (defaults w.lifetimes.count (ks.take n))
  kept : Kept w w'

/-- The store when the rest of a row could not be made and its place has been given up. -/
lemma stalled_abandon {q : Pool} {ks : List Kind} {n : Nat} {lifetimes : Lifetimes}
    (hf : w.catalogue.get? id = some a) (hp : a.Packed)
    (hr : a.reserve w.pool w.version = .ok (b, q))
    (hm : w.lifetimes.makeAll ks = (.error n, lifetimes)) (js : List Nat) :
    Stalled w { w with
        catalogue := w.catalogue.set id (b.abandon js q w.version).1
        pool := (b.abandon js q w.version).2, lifetimes }
      id a (b.abandon js q w.version).1 ks := by
  obtain ⟨hfailing, hevents⟩ := makeAll_eq_error hm
  obtain ⟨hpacked, hrows, hblank⟩ := Archetype.abandon_spec hp hr js
  have hreshaped := (Archetype.reshaped_reserve hr).trans
    (Archetype.reshaped_abandon b js q w.version)
  exact ⟨hf, ⟨_, js, hr, rfl⟩, hpacked, hrows, hblank, rfl, rfl, ⟨n, hfailing, hevents⟩,
    ⟨rfl, rfl, rfl, hreshaped.akin⟩⟩

/-- An entity without a place got a row of defaults at the end of an archetype. -/
structure Filled (w w' : World) (h : Handle) (id : Nat) (a b : Archetype) : Prop where
  found : w.catalogue.get? id = some a
  unplaced : w.handles.location h = .ok none
  appended : a.Appended w.version w.pool
    ⟨h, (defaults w.lifetimes.count a.layout.kinds.tail).map Prod.snd⟩ b w'.pool
  packed : b.Packed
  rows : b.rows = a.rows ++
    [⟨h, (defaults w.lifetimes.count a.layout.kinds.tail).map Prod.snd⟩]
  blank : b.blank = a.blank
  catalogue : w'.catalogue = w.catalogue.set id b
  location : w'.handles.location =
    Function.update w.handles.location h (.ok (some ⟨id, a.rows.length⟩))
  live : w'.handles.live = w.handles.live
  events : w'.lifetimes.events = w.lifetimes.events ++
    makeEvents (defaults w.lifetimes.count a.layout.kinds.tail)
  kept : Kept w w'

lemma Filled.room (hx : Filled w w' h id a b) : ∃ q, a.reserve w.pool w.version = .ok q := by
  obtain ⟨c, hr, -⟩ := hx.appended
  exact ⟨_, hr⟩

lemma Filled.reshaped (hx : Filled w w' h id a b) : a.Reshaped w.version w.pool b w'.pool :=
  hx.appended.reshaped

/-- Filling a place in an archetype is refused for want of room, stalls, or succeeds. -/
theorem fill_cases (hs : w.Sound) (ha : w.catalogue.get? id = some a)
    (hl : w.handles.location h = .ok none) :
    (∃ f, a.reserve w.pool w.version = .error f ∧
      fill h id w = .error (.refused f) (w.recycle id)) ∨
    (∃ b w', Stalled w w' id a b a.layout.kinds.tail ∧ fill h id w = .error .aborted w') ∨
    (∃ b w', Filled w w' h id a b ∧ fill h id w = .ok () w') := by
  have hp := hs.catalogue.packed id a ha
  unfold fill
  rw [Catalogue.get_eq_ok.mpr ha]
  cases hr : a.reserve w.pool w.version with
  | error f => exact .inl ⟨f, rfl, by simp only [hr]⟩
  | ok q =>
    obtain ⟨b, q⟩ := q
    obtain ⟨hblank, hcount, -⟩ := Archetype.reserve_spec hp hr
    have hkinds : b.layout.kinds = a.layout.kinds := by rw [Archetype.layout_of_blank hblank]
    cases hm : w.lifetimes.makeAll a.layout.kinds.tail with
    | mk made lifetimes =>
      cases made with
      | error n =>
        -- stamped are the handles, the columns that were made, and the one whose default failed
        refine .inr (.inl ⟨_, _, stalled_abandon ha hp hr hm (List.range (n + 2)), ?_⟩)
        simp only [hr, hkinds, hm]
      | ok values =>
        obtain ⟨hvalues, hevents⟩ := makeAll_eq_ok hm
        obtain ⟨first, cs, hcols, -⟩ := (hs.catalogue.drafted id a ha).columns
        have hlen : (Row.mk h values).values.length + 1 = a.layout.columns.length := by
          simp [hvalues, length_defaults, Layout.kinds, hcols]
        obtain ⟨hpacked, hrows, hblank'⟩ := Archetype.commit_spec (v := w.version) hp hr hlen
        obtain ⟨handles, hh⟩ := HandleTable.setLocation_ok_iff (l := some ⟨id, a.rows.length⟩).mpr
          ⟨none, hl⟩
        obtain ⟨hlocation, hlive⟩ := HandleTable.location_setLocation hh
        have happended :
            a.Appended w.version w.pool ⟨h, values⟩ (b.commit ⟨h, values⟩ w.version) q :=
          ⟨b, hr, rfl⟩
        let v : World := { w with
          catalogue := w.catalogue.set id (b.commit ⟨h, values⟩ w.version)
          pool := q, lifetimes, handles }
        refine .inr (.inr ⟨_, v, ⟨ha, hl, hvalues ▸ happended, hpacked, hvalues ▸ hrows, hblank',
          rfl, hlocation, hlive, hevents, ⟨rfl, rfl, rfl, happended.reshaped.akin⟩⟩, ?_⟩)
        simp only [hr, hkinds, hm, setLocation, hcount, hp.counted, hh]
        rfl

lemma removeRow_eq (ha : w.catalogue.get? l.archetype = some a) (hp : a.Packed)
    (hi : l.index < a.rows.length)
    (hlast : ∀ r, a.rows[a.rows.length - 1]? = some r →
      w.handles.location r.handle = .ok (some ⟨l.archetype, a.rows.length - 1⟩)) :
    ∃ b pool handles d, removeRow l w = .ok () { w with
        catalogue := w.catalogue.set l.archetype b, pool, handles } ∧
      b.Packed ∧ b.rows = swapRemove a.rows l.index ∧ b.blank = a.blank ∧
      (a.rows.map Row.handle)[a.rows.length - 1]? = some d ∧
      handles.location = Function.update w.handles.location d (.ok (some l)) ∧
      handles.live = w.handles.live ∧
      ∃ x, a.remove l.index w.pool w.version = .ok (x, b, pool) := by
  obtain ⟨d, b, pool, hr, hpacked, hrows, hblank, last, hl, hd⟩ :=
    Archetype.remove_spec (p := w.pool) (v := w.version) hp hi
  have hloc := hlast last hl
  have hlast' : (a.rows.map Row.handle)[a.rows.length - 1]? = some last.handle := by
    rw [List.getElem?_map, hl]
    rfl
  unfold removeRow
  rw [Catalogue.get_eq_ok.mpr ha]
  simp only [hr]
  by_cases hend : l.index = a.rows.length - 1
  · rw [if_pos hend] at hd
    subst hd
    refine ⟨b, pool, w.handles, last.handle, rfl, hpacked, hrows, hblank, hlast', ?_, rfl,
      _, rfl⟩
    rw [← hend] at hloc
    have he : (⟨l.archetype, l.index⟩ : Location) = l := rfl
    rw [he] at hloc
    rw [← hloc, Function.update_eq_self]
  · rw [if_neg hend] at hd
    subst hd
    obtain ⟨handles, hh⟩ := HandleTable.setLocation_ok_iff (l := some l).mpr ⟨_, hloc⟩
    obtain ⟨hupdate, hlive⟩ := HandleTable.location_setLocation hh
    refine ⟨b, pool, handles, last.handle, ?_, hpacked, hrows, hblank, hlast', hupdate, hlive,
      _, rfl⟩
    simp only [setLocation, hh]

lemma location_after_swap {loc loc' : Handle → Except Fault (Option Location)} {d : Handle}
    (hl : loc h = .ok (some l)) (hu : loc' = Function.update loc d (.ok (some l))) :
    loc' h = .ok (some l) := by
  by_cases hd : h = d
  · rw [hu, hd, Function.update_self]
  · rw [hu, Function.update_of_ne hd, hl]

lemma relocate_eq (ha : w.catalogue.get? l.archetype = some a) (hp : a.Packed)
    (hi : l.index < a.rows.length)
    (hlast : ∀ r, a.rows[a.rows.length - 1]? = some r →
      w.handles.location r.handle = .ok (some ⟨l.archetype, a.rows.length - 1⟩))
    (hl : w.handles.location h = .ok (some l)) (place : Option Location) :
    ∃ b pool handles d, relocate h l place w = .ok () { w with
        catalogue := (w.catalogue.set l.archetype b).recycle l.archetype, pool, handles } ∧
      b.Packed ∧ b.rows = swapRemove a.rows l.index ∧ b.blank = a.blank ∧
      (a.rows.map Row.handle)[a.rows.length - 1]? = some d ∧
      handles.location =
        Function.update (Function.update w.handles.location d (.ok (some l))) h (.ok place) ∧
      handles.live = w.handles.live ∧
      ∃ x, a.remove l.index w.pool w.version = .ok (x, b, pool) := by
  obtain ⟨b, pool, handles, d, hrem, hpacked, hrows, hblank, hd, hupdate, hlive, hremoved⟩ :=
    removeRow_eq ha hp hi hlast
  obtain ⟨handles', hset⟩ := HandleTable.setLocation_ok_iff (l := place).mpr
    ⟨_, location_after_swap hl hupdate⟩
  obtain ⟨hupdate', hlive'⟩ := HandleTable.location_setLocation hset
  refine ⟨b, pool, handles', d, ?_, hpacked, hrows, hblank, hd, by rw [hupdate', hupdate],
    hlive'.trans hlive, hremoved⟩
  simp only [relocate, hrem, setLocation, hset, recycle]

/-- An entity has lost all components; `d` was in the last row of its archetype. -/
structure Vacated (w w' : World) (h : Handle) (l : Location) (a b : Archetype) (r : Row)
    (d : Handle) : Prop where
  found : w.catalogue.get? l.archetype = some a
  placed : w.handles.location h = .ok (some l)
  row : a.rows[l.index]? = some r
  handle : r.handle = h
  packed : b.Packed
  rows : b.rows = swapRemove a.rows l.index
  blank : b.blank = a.blank
  removed : ∃ x, a.remove l.index w.pool w.version = .ok (x, b, w'.pool)
  last : (a.rows.map Row.handle)[a.rows.length - 1]? = some d
  catalogue : w'.catalogue = (w.catalogue.set l.archetype b).recycle l.archetype
  location : w'.handles.location =
    Function.update (Function.update w.handles.location d (.ok (some l))) h (.ok none)
  live : w'.handles.live = w.handles.live
  events : w'.lifetimes.events =
    w.lifetimes.events ++ dropEvents ((a.labelled r).map fun e => (e.1.kind, e.2))
  kept : Kept w w'

lemma Vacated.reshaped {r : Row} {d : Handle} (hx : Vacated w w' h l a b r d) :
    a.Reshaped w.version w.pool b w'.pool := by
  obtain ⟨x, hremoved⟩ := hx.removed
  exact Archetype.reshaped_remove hremoved

theorem vacate_eq (hs : w.Sound) (hl : w.handles.location h = .ok (some l)) :
    ∃ a b r d w', Vacated w w' h l a b r d ∧ vacate h l w = .ok () w' := by
  obtain ⟨a, r, ha, hp, hr, hh⟩ := hs.get hl
  let v : World :=
    { w with lifetimes := w.lifetimes.dropAll (a.layout.kinds.tail.zip r.values) }
  obtain ⟨b, pool, handles, d, hgone, hpacked, hrows, hblank, hd, hupdate, hlive, x, hremoved⟩ :=
    relocate_eq (w := v) ha hp (List.getElem?_eq_some_iff.mp hr).1
      (fun last hlast => hs.location ha hlast) hl none
  have hevents : (w.lifetimes.dropAll (a.layout.kinds.tail.zip r.values)).events =
      w.lifetimes.events ++ dropEvents ((a.labelled r).map fun e => (e.1.kind, e.2)) := by
    rw [dropAll_eq, Archetype.kinds_labelled]
  let w' : World := { v with
    catalogue := (w.catalogue.set l.archetype b).recycle l.archetype, pool, handles }
  refine ⟨a, b, r, d, w', ⟨ha, hl, hr, hh, hpacked, hrows, hblank, ⟨x, hremoved⟩, hd, rfl, hupdate,
    hlive, hevents, ⟨rfl, rfl, rfl, (Archetype.reshaped_remove hremoved).akin⟩⟩, ?_⟩
  unfold vacate
  simp only [Catalogue.get_eq_ok.mpr ha, (Archetype.row_eq_ok hp).mpr hr]
  exact hgone

/-- A row has left archetype `a` and stands, fitted to the columns there, at the end of `b`. -/
structure Transferred (w w' : World) (h : Handle) (l : Location) (id : Nat)
    (a a' b b' : Archetype) (r : Row) (d : Handle) : Prop where
  source : w.catalogue.get? l.archetype = some a
  target : w.catalogue.get? id = some b
  apart : l.archetype ≠ id
  placed : w.handles.location h = .ok (some l)
  row : a.rows[l.index]? = some r
  handle : r.handle = h
  sourcePacked : a'.Packed
  sourceRows : a'.rows = swapRemove a.rows l.index
  sourceBlank : a'.blank = a.blank
  targetPacked : b'.Packed
  targetRows : b'.rows =
    b.rows ++ [⟨h, (fitted w.lifetimes.count (a.labelled r) b.layout.columns.tail).map Prod.snd⟩]
  targetBlank : b'.blank = b.blank
  exchanged : ∃ q x, b.Appended w.version w.pool
      ⟨h, (fitted w.lifetimes.count (a.labelled r) b.layout.columns.tail).map Prod.snd⟩ b' q ∧
    a.remove l.index q w.version = .ok (x, a', w'.pool)
  last : (a.rows.map Row.handle)[a.rows.length - 1]? = some d
  catalogue : w'.catalogue =
    ((w.catalogue.set id b').set l.archetype a').recycle l.archetype
  location : w'.handles.location = Function.update
    (Function.update w.handles.location d (.ok (some l))) h (.ok (some ⟨id, b.rows.length⟩))
  live : w'.handles.live = w.handles.live
  events : w'.lifetimes.events = w.lifetimes.events ++
    makeEvents (defaults w.lifetimes.count (lacking (a.labelled r) b.layout.columns.tail)) ++
    dropEvents (surplus (a.labelled r) b)
  kept : Kept w w'

lemma Transferred.reshaped {a' b' : Archetype} {r : Row} {d : Handle}
    (hx : Transferred w w' h l id a a' b b' r d) :
    ∃ q, b.Reshaped w.version w.pool b' q ∧ a.Reshaped w.version q a' w'.pool := by
  obtain ⟨q, x, happended, hremoved⟩ := hx.exchanged
  exact ⟨q, happended.reshaped, Archetype.reshaped_remove hremoved⟩

/-- When the row that fits the target is made, storing it and taking the old row out ends the
move. -/
lemma relocate_fitted {r : Row} {q : Archetype × Pool} {values : List Value}
    {lifetimes : Lifetimes} (hs : w.Sound) (hl : w.handles.location h = .ok (some l))
    (ha : w.catalogue.get? l.archetype = some a) (hb : w.catalogue.get? id = some b)
    (hne : l.archetype ≠ id) (hr : a.rows[l.index]? = some r) (hh : r.handle = h)
    (hres : b.reserve w.pool w.version = .ok q)
    (hm : w.lifetimes.makeAll (lacking (a.labelled r) b.layout.columns.tail) =
      (.ok values, lifetimes)) :
    ∃ a' b' d w', Transferred w w' h l id a a' b b' r d ∧
      relocate h l (some ⟨id, b.rows.length⟩) { w with
        catalogue := w.catalogue.set id (q.1.commit
          ⟨r.handle, (fitted w.lifetimes.count (a.labelled r) b.layout.columns.tail).map Prod.snd⟩
          w.version)
        pool := q.2
        lifetimes := lifetimes.dropAll (surplus (a.labelled r) b) } = .ok () w' := by
  obtain ⟨-, hmade⟩ := makeAll_eq_ok hm
  have hp := hs.catalogue.packed _ a ha
  obtain ⟨f, cs, hcols, -⟩ := (hs.catalogue.drafted _ b hb).columns
  let values' := (fitted w.lifetimes.count (a.labelled r) b.layout.columns.tail).map Prod.snd
  obtain ⟨hpacked, hrows, hblank⟩ :=
    Archetype.commit_spec (v := w.version) (hs.catalogue.packed id b hb) hres
      (r := ⟨r.handle, values'⟩) (by simp [values', length_fitted, hcols])
  let v : World := { w with
    catalogue := w.catalogue.set id (q.1.commit ⟨r.handle, values'⟩ w.version)
    pool := q.2
    lifetimes := lifetimes.dropAll (surplus (a.labelled r) b) }
  have hav : v.catalogue.get? l.archetype = some a := by
    rw [Catalogue.get_set hb, Function.update_of_ne hne]
    exact ha
  obtain ⟨a', pool, handles, d, hgone, hpacked', hrows', hblank', hd, hupdate, hlive, x, hleft⟩ :=
    relocate_eq (w := v) hav hp (List.getElem?_eq_some_iff.mp hr).1
      (fun last hlast => hs.location ha hlast) hl (some ⟨id, b.rows.length⟩)
  have hcame : b.Appended w.version w.pool ⟨r.handle, values'⟩
    (q.1.commit ⟨r.handle, values'⟩ w.version) q.2 := ⟨q.1, hres, rfl⟩
  have hpool := hcame.reshaped.akin.trans (Archetype.reshaped_remove hleft).akin
  have hevents : v.lifetimes.events = w.lifetimes.events ++
      makeEvents (defaults w.lifetimes.count (lacking (a.labelled r) b.layout.columns.tail)) ++
      dropEvents (surplus (a.labelled r) b) := by
    rw [← hmade]
    exact congrArg Lifetimes.events (dropAll_eq lifetimes _)
  let w' : World := { v with
    catalogue := (v.catalogue.set l.archetype a').recycle l.archetype
    pool, handles }
  exact ⟨a', _, d, w', ⟨ha, hb, hne, hl, hr, hh, hpacked', hrows', hblank', hpacked, hh ▸ hrows,
    hblank, ⟨q.2, x, hh ▸ hcame, hleft⟩, hd, rfl, hupdate, hlive, hevents,
    ⟨rfl, rfl, rfl, hpool⟩⟩, hgone⟩

/-- A move between archetypes is refused for want of room, stalls, or succeeds. -/
theorem transfer_cases (hs : w.Sound) (hl : w.handles.location h = .ok (some l))
    (hb : w.catalogue.get? id = some b) (hne : l.archetype ≠ id) :
    (∃ f, b.reserve w.pool w.version = .error f ∧
      transfer h l id w = .error (.refused f) (w.recycle id)) ∨
    (∃ a r b' w', w.catalogue.get? l.archetype = some a ∧ a.rows[l.index]? = some r ∧
      Stalled w w' id b b' (lacking (a.labelled r) b.layout.columns.tail) ∧
      transfer h l id w = .error .aborted w') ∨
    (∃ a a' b' r d w', Transferred w w' h l id a a' b b' r d ∧
      transfer h l id w = .ok () w') := by
  obtain ⟨a, r, ha, hp, hr, hh⟩ := hs.get hl
  have hpb := hs.catalogue.packed id b hb
  have hlen := hp.length_values (List.mem_of_getElem? hr)
  have hda := hs.catalogue.drafted _ a ha
  have hdb := hs.catalogue.drafted _ b hb
  have hfresh := Archetype.kinds_freshColumns hda hdb hlen
  have hgone := Archetype.cells_alone hda hdb hlen
  unfold transfer
  rw [Catalogue.get_eq_ok.mpr ha, Catalogue.get_eq_ok.mpr hb]
  simp only [(Archetype.row_eq_ok hp).mpr hr]
  cases hres : b.reserve w.pool w.version with
  | error f => exact .inl ⟨f, rfl, rfl⟩
  | ok q =>
    obtain ⟨b1, q⟩ := q
    obtain ⟨hblank, hcount, -⟩ := Archetype.reserve_spec hpb hres
    -- reserving a place changes neither the columns nor the count
    have hlayout := Archetype.layout_of_blank hblank
    have hcodes : b1.codes = b.codes := by rw [Archetype.codes, Archetype.codes, hlayout]
    have hfresh1 : ∀ m, freshColumns m b1 = freshColumns m b := fun m => by
      rw [freshColumns, freshColumns, hlayout]
    simp only [hcodes, hfresh1, hfresh, hgone]
    cases hm : w.lifetimes.makeAll (lacking (a.labelled r) b.layout.columns.tail) with
    | mk made lifetimes =>
      cases made with
      | error n =>
        exact .inr (.inl ⟨a, r, _, _, ha, hr, stalled_abandon hb hpb hres hm
          (((freshColumns (Ascending.pairUp a.codes b.codes) b).take (n + 1)).map Prod.snd),
          rfl⟩)
      | ok values =>
        have hvalues := Archetype.carry_eq hda hdb hlen w.lifetimes.count
        rw [← (makeAll_eq_ok hm).1] at hvalues
        obtain ⟨a', b', d, w', hx, hmoved⟩ := relocate_fitted hs hl ha hb hne hr hh hres hm
        refine .inr (.inr ⟨a, a', b', r, d, w', hx, ?_⟩)
        simp only [hvalues, hcount, hpb.counted]
        exact hmoved

end EntityStore.World
