import Mathlib
import EntityStore.Proofs.Placement

/-!
# What a step of placement means for the entities

`entry` is the list of components found under a handle. Each way in which a step of placement can
end keeps the store sound and changes the entry of at most the one entity it is about.
-/
namespace EntityStore.World

variable {w w' : World} {h d : Handle} {l : Location} {id : Nat} {a a' b b' : Archetype} {r : Row}

/-- The components of an entity, each with its registration. -/
def entry (w : World) : Handle → Except Fault (List (Registration × Value)) :=
  entryAt w.handles.location w.catalogue.entries

lemma entry_congr (hl : w'.handles.location = w.handles.location)
    (he : w'.catalogue.entries = w.catalogue.entries) : w'.entry = w.entry := by
  rw [entry, entry, hl, he]

lemma entry_of_row (ha : w.catalogue.get? l.archetype = some a)
    (hl : w.handles.location h = .ok (some l)) (hr : a.rows[l.index]? = some r) :
    w.entry h = .ok (a.labelled r) := by
  refine entryAt_of_some hl (g := r.handle) ?_
  rw [Catalogue.entries_of_get ha, Archetype.getElem?_entries hr]

lemma entry_of_unplaced (hl : w.handles.location h = .ok none) : w.entry h = .ok [] :=
  entryAt_of_none hl

/-- A store that kept its registry and settings is sound if its catalogue and locations are. -/
lemma Sound.of_kept (hs : w.Sound) (hk : Kept w w')
    (hc : w'.catalogue.Sound w.registry w.settings)
    (hp : Placed w'.handles.location w'.catalogue.roster) : w'.Sound :=
  ⟨hk.registry ▸ hs.registry, hk.settings ▸ hs.chunks,
    by rw [hk.registry, hk.settings]; exact hc, hp⟩

lemma Added.isEmpty (ha : Added w w' a) : a.isEmpty = true := by
  rw [Archetype.isEmpty, ha.count]
  rfl

lemma Added.entries (hs : w.Sound) (ha : Added w w' a) :
    w'.catalogue.entries = w.catalogue.entries :=
  Catalogue.entries_add hs.catalogue.valid ha.add (by rw [Archetype.rows, ha.chunks]; rfl)

theorem Added.sound (hs : w.Sound) (ha : Added w w' a) : w'.Sound := by
  have hp : a.Packed := Archetype.packed_of_chunks_nil ha.drafted.roomy ha.chunks ha.count
  have hc := hs.catalogue.add ha.add ha.drafted hp
  have he := Catalogue.roster_congr (ha.entries hs)
  rw [ha.rest]
  exact ⟨hs.registry, hs.chunks, hc, he ▸ hs.placed⟩

lemma Added.entry (hs : w.Sound) (ha : Added w w' a) : w'.entry = w.entry :=
  entry_congr (by rw [ha.rest]) (ha.entries hs)

theorem Sound.recycle (hs : w.Sound) (id : Nat) : (w.recycle id).Sound := by
  obtain ⟨hc, he⟩ := hs.catalogue.recycle id
  exact ⟨hs.registry, hs.chunks, hc, Catalogue.roster_congr he ▸ hs.placed⟩

lemma Stalled.entries {ks : List Kind} (hx : Stalled w w' id a b ks) :
    w'.catalogue.entries = w.catalogue.entries := by
  rw [hx.catalogue]
  exact Catalogue.entries_set_same hx.found (Archetype.entries_congr hx.rows hx.blank)

theorem Stalled.sound {ks : List Kind} (hs : w.Sound) (hx : Stalled w w' id a b ks) :
    w'.Sound := by
  refine hs.of_kept hx.kept ?_ ?_
  · rw [hx.catalogue]
    exact hs.catalogue.set hx.found hx.blank hx.packed
  · rw [hx.handles, Catalogue.roster_congr hx.entries]
    exact hs.placed

lemma Stalled.entry {ks : List Kind} (hx : Stalled w w' id a b ks) : w'.entry = w.entry :=
  entry_congr (by rw [hx.handles]) hx.entries

lemma Filled.entries (hx : Filled w w' h id a b) : w'.catalogue.entries =
    Function.update w.catalogue.entries id
      (w.catalogue.entries id ++ [(h, fitted w.lifetimes.count [] a.layout.columns.tail)]) := by
  rw [hx.catalogue, Catalogue.entries_set hx.found, Archetype.entries_append hx.rows hx.blank,
    Archetype.labelled_defaults, Catalogue.entries_of_get hx.found]

lemma Filled.location_eq (hx : Filled w w' h id a b) : w'.handles.location =
    Function.update w.handles.location h
      (.ok (some ⟨id, (w.catalogue.entries id).length⟩)) := by
  rw [hx.location, Catalogue.entries_of_get hx.found, Archetype.length_entries]

theorem Filled.sound (hs : w.Sound) (hx : Filled w w' h id a b) : w'.Sound := by
  refine hs.of_kept hx.kept ?_ ?_
  · rw [hx.catalogue]
    exact hs.catalogue.set hx.found hx.blank hx.packed
  · rw [Catalogue.roster, hx.entries, hx.location_eq]
    exact hs.placed.placed_append (by simp [hx.unplaced]) id _

theorem Filled.entry (hs : w.Sound) (hx : Filled w w' h id a b) :
    w'.entry =
      Function.update w.entry h (.ok (fitted w.lifetimes.count [] a.layout.columns.tail)) := by
  rw [World.entry, hx.entries, hx.location_eq]
  exact hs.placed.entryAt_append id h _

lemma Vacated.sound_set (hs : w.Sound) (hx : Vacated w w' h l a b r d) :
    (w.catalogue.set l.archetype b).Sound w.registry w.settings :=
  hs.catalogue.set hx.found hx.blank hx.packed

lemma Vacated.entries (hs : w.Sound) (hx : Vacated w w' h l a b r d) : w'.catalogue.entries =
    Function.update w.catalogue.entries l.archetype
      (swapRemove (w.catalogue.entries l.archetype) l.index) := by
  rw [hx.catalogue, ((hx.sound_set hs).recycle l.archetype).2, Catalogue.entries_set hx.found,
    Archetype.entries_swapRemove hx.rows hx.blank, Catalogue.entries_of_get hx.found]

lemma Vacated.last_roster (hx : Vacated w w' h l a b r d) :
    (w.catalogue.roster l.archetype)[(w.catalogue.roster l.archetype).length - 1]? = some d := by
  rw [Catalogue.roster_of_get hx.found, List.length_map]
  exact hx.last

theorem Vacated.sound (hs : w.Sound) (hx : Vacated w w' h l a b r d) : w'.Sound := by
  refine hs.of_kept hx.kept ?_ ?_
  · rw [hx.catalogue]
    exact ((hx.sound_set hs).recycle l.archetype).1
  · rw [Catalogue.roster, hx.entries hs, hx.location]
    exact hs.placed.placed_swapRemove hx.placed hx.last_roster

theorem Vacated.entry (hs : w.Sound) (hx : Vacated w w' h l a b r d) :
    w'.entry = Function.update w.entry h (.ok []) := by
  rw [World.entry, hx.entries hs, hx.location]
  exact hs.placed.entryAt_swapRemove hx.placed hx.last_roster

lemma Transferred.sound_set (hs : w.Sound) (hx : Transferred w w' h l id a a' b b' r d) :
    ((w.catalogue.set id b').set l.archetype a').Sound w.registry w.settings := by
  refine (hs.catalogue.set hx.target hx.targetBlank hx.targetPacked).set ?_ hx.sourceBlank
    hx.sourcePacked
  rw [Catalogue.get_set hx.target, Function.update_of_ne hx.apart, hx.source]

lemma Transferred.entries (hs : w.Sound) (hx : Transferred w w' h l id a a' b b' r d) :
    w'.catalogue.entries = Function.update
      (Function.update w.catalogue.entries l.archetype
        (swapRemove (w.catalogue.entries l.archetype) l.index)) id
      (w.catalogue.entries id ++
        [(h, fitted w.lifetimes.count (a.labelled r) b.layout.columns.tail)]) := by
  have hget : (w.catalogue.set id b').get? l.archetype = some a := by
    rw [Catalogue.get_set hx.target, Function.update_of_ne hx.apart, hx.source]
  have hlabel :
      b.labelled ⟨h, (fitted w.lifetimes.count (a.labelled r) b.layout.columns.tail).map Prod.snd⟩ =
        fitted w.lifetimes.count (a.labelled r) b.layout.columns.tail := by
    rw [Archetype.labelled, zip_fitted]
  rw [hx.catalogue, ((hx.sound_set hs).recycle l.archetype).2, Catalogue.entries_set hget,
    Catalogue.entries_set hx.target, Archetype.entries_append hx.targetRows hx.targetBlank,
    Archetype.entries_swapRemove hx.sourceRows hx.sourceBlank, hlabel,
    Catalogue.entries_of_get hx.target, Catalogue.entries_of_get hx.source,
    Function.update_comm hx.apart]

lemma Transferred.last_roster (hx : Transferred w w' h l id a a' b b' r d) :
    (w.catalogue.roster l.archetype)[(w.catalogue.roster l.archetype).length - 1]? = some d := by
  rw [Catalogue.roster_of_get hx.source, List.length_map]
  exact hx.last

/-- Moving is leaving one place and then getting another. -/
lemma Transferred.split (hs : w.Sound) (hx : Transferred w w' h l id a a' b b' r d) :
    ∃ loc entries, Placed loc (handlesOf entries) ∧ loc h = .ok none ∧
      entryAt loc entries = Function.update w.entry h (.ok []) ∧
      w'.handles.location = Function.update loc h (.ok (some ⟨id, (entries id).length⟩)) ∧
      w'.catalogue.entries = Function.update entries id
        (entries id ++ [(h, fitted w.lifetimes.count (a.labelled r) b.layout.columns.tail)]) := by
  have hid : Function.update w.catalogue.entries l.archetype
      (swapRemove (w.catalogue.entries l.archetype) l.index) id = w.catalogue.entries id :=
    Function.update_of_ne (Ne.symm hx.apart) ..
  refine ⟨_, _, hs.placed.placed_swapRemove hx.placed hx.last_roster, Function.update_self ..,
    hs.placed.entryAt_swapRemove hx.placed hx.last_roster, ?_, ?_⟩
  · rw [hx.location, Function.update_idem, hid, Catalogue.entries_of_get hx.target,
      Archetype.length_entries]
  · rw [hx.entries hs, hid]

theorem Transferred.sound (hs : w.Sound) (hx : Transferred w w' h l id a a' b b' r d) :
    w'.Sound := by
  refine hs.of_kept hx.kept ?_ ?_
  · rw [hx.catalogue]
    exact ((hx.sound_set hs).recycle l.archetype).1
  · obtain ⟨loc, entries, hp, hh, -, hloc, hentries⟩ := hx.split hs
    rw [Catalogue.roster, hentries, hloc]
    exact hp.placed_append (by simp [hh]) id _

theorem Transferred.entry (hs : w.Sound) (hx : Transferred w w' h l id a a' b b' r d) :
    w'.entry = Function.update w.entry h
      (.ok (fitted w.lifetimes.count (a.labelled r) b.layout.columns.tail)) := by
  obtain ⟨loc, entries, hp, hh, hentry, hloc, hentries⟩ := hx.split hs
  rw [World.entry, hentries, hloc, hp.entryAt_append id h, hentry, Function.update_idem]

end EntityStore.World
