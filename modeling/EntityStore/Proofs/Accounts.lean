import Mathlib
import EntityStore.Proofs.Ledger

/-!
# No step of placement loses an owned value

`Balances` is the law of conservation for one step: what is stored afterwards, what ended and what
left equals what was stored before, what began and what came in. Nothing comes in or leaves when an
entity is placed; a store only makes defaults and drops what it holds.
-/
namespace EntityStore

open Lifetimes

namespace World

variable {w w' w'' : World} {h d : Handle} {l : Location} {id : Nat} {a a' b b' : Archetype}
  {r : Row} {x y : Traffic}

def Balances (w w' : World) (x : Traffic) : Prop :=
  ∃ es, w'.lifetimes.events = w.lifetimes.events ++ es ∧
    w'.stock + ended es + x.leaving = w.stock + begun es + x.entering

lemma Balances.refl (w : World) : Balances w w 0 := ⟨[], by simp, by simp⟩

theorem Balances.trans (h : Balances w w' x) (h' : Balances w' w'' y) :
    Balances w w'' (x + y) := by
  obtain ⟨es, hes, heq⟩ := h
  obtain ⟨fs, hfs, heq'⟩ := h'
  refine ⟨es ++ fs, by rw [hfs, hes, List.append_assoc], ?_⟩
  rw [ended_append, begun_append, Traffic.entering_add, Traffic.leaving_add]
  calc w''.stock + (ended es + ended fs) + (x.leaving + y.leaving)
      = w''.stock + ended fs + y.leaving + (ended es + x.leaving) := by abel
    _ = w'.stock + ended es + x.leaving + (begun fs + y.entering) := by rw [heq']; abel
    _ = w.stock + (begun es + begun fs) + (x.entering + y.entering) := by rw [heq]; abel

lemma Balances.of_eq (he : w'.lifetimes.events = w.lifetimes.events) (hs : w'.stock = w.stock) :
    Balances w w' 0 :=
  ⟨[], by simp [he], by simp [hs]⟩

lemma stock_recycle (hs : w.catalogue.Sound w.registry w.settings) (id : Nat) :
    (w.catalogue.recycle id).total Archetype.stock = w.catalogue.total Archetype.stock :=
  Catalogue.total_recycle _ fun _ ha he => Archetype.stock_of_isEmpty (hs.packed _ _ ha) he

lemma balances_recycle (hs : w.Sound) (id : Nat) : Balances w (w.recycle id) 0 :=
  .of_eq rfl (stock_recycle hs.catalogue id)

lemma Added.balances (ha : Added w w' a) : Balances w w' 0 := by
  have hempty : a.stock = 0 := by
    rw [Archetype.stock, Archetype.entries, Archetype.rows, ha.chunks]
    rfl
  refine .of_eq (by rw [ha.rest]) ?_
  rw [stock, Catalogue.total_add _ ha.add, hempty, add_zero, stock]

lemma Stalled.balances {ks : List Kind} (hx : Stalled w w' id a b ks) : Balances w w' 0 := by
  obtain ⟨n, -, hevents⟩ := hx.events
  have hstock : b.stock = a.stock := by
    rw [Archetype.stock, Archetype.entries_congr hx.rows hx.blank, Archetype.stock]
  have htotal := Catalogue.total_set Archetype.stock hx.found b
  rw [← hx.catalogue, hstock] at htotal
  refine ⟨_, by rw [hevents, List.append_assoc], ?_⟩
  rw [ended_append, begun_append, ended_makeEvents, begun_dropEvents, ended_dropEvents,
    begun_makeEvents, stock, add_right_cancel htotal, stock, zero_add, add_zero,
    Traffic.entering_zero, Traffic.leaving_zero]

lemma Filled.balances (hx : Filled w w' h id a b) : Balances w w' 0 := by
  have hstock : b.stock = a.stock + owned (defaults w.lifetimes.count a.layout.kinds.tail) := by
    have hkinds : a.layout.columns.tail.map Registration.kind = a.layout.kinds.tail := by
      rw [Layout.kinds, List.map_tail]
    rw [Archetype.stock, Archetype.entries_append hx.rows hx.blank, stockOf_append,
      stockOf_singleton, Archetype.labelled_defaults, contents, fitted_nil, hkinds, Archetype.stock]
  have htotal := Catalogue.total_set Archetype.stock hx.found b
  rw [← hx.catalogue, hstock] at htotal
  refine ⟨_, hx.events, ?_⟩
  rw [ended_makeEvents, begun_makeEvents]
  have hcancel : w'.stock = w.stock + owned (defaults w.lifetimes.count a.layout.kinds.tail) := by
    apply add_right_cancel (b := a.stock)
    rw [stock, htotal, stock]
    abel
  rw [hcancel]
  simp

lemma stock_of_swapRemove (hr : a.rows[l.index]? = some r)
    (hb : b.rows = swapRemove a.rows l.index) (hblank : b.blank = a.blank) :
    b.stock + owned (contents (a.labelled r)) = a.stock := by
  rw [Archetype.stock, Archetype.entries_swapRemove hb hblank]
  exact stockOf_swapRemove (Archetype.getElem?_entries hr)

lemma Vacated.balances (hs : w.Sound) (hx : Vacated w w' h l a b r d) : Balances w w' 0 := by
  have hrow := stock_of_swapRemove hx.row hx.rows hx.blank
  have htotal := Catalogue.total_set Archetype.stock hx.found b
  have hw' : w'.stock = (w.catalogue.set l.archetype b).total Archetype.stock := by
    rw [stock, hx.catalogue]
    exact Catalogue.total_recycle _ fun _ ha he =>
      Archetype.stock_of_isEmpty ((hx.sound_set hs).packed _ _ ha) he
  refine ⟨_, hx.events, ?_⟩
  rw [ended_dropEvents, begun_dropEvents, Traffic.entering_zero, Traffic.leaving_zero]
  change w'.stock + owned (contents (a.labelled r)) + 0 = w.stock + 0 + 0
  apply add_right_cancel (b := b.stock)
  calc w'.stock + owned (contents (a.labelled r)) + 0 + b.stock
      = w'.stock + (b.stock + owned (contents (a.labelled r))) := by abel
    _ = w.stock + 0 + 0 + b.stock := by rw [hrow, hw', htotal, stock]; abel

/-- What is carried over comes out of the one archetype and goes into the other. -/
theorem Transferred.balances (hs : w.Sound) (hx : Transferred w w' h l id a a' b b' r d) :
    Balances w w' 0 := by
  have hda := hs.catalogue.drafted _ a hx.source
  have hdb := hs.catalogue.drafted _ b hx.target
  have hlen := (hs.catalogue.packed _ a hx.source).length_values (List.mem_of_getElem? hx.row)
  obtain ⟨first, cs, hcols, -, hcs⟩ := hdb.columns
  have hnodup : (cs.map Registration.code).Nodup := by
    rw [Registry.codes_of_registrations hcs]
    exact codes_nodup hdb
  have hfit := owned_fitted (listed_labelled hda hlen)
    (fun c hc => Registry.registration_of_mem hcs hc) hnodup w.lifetimes.count
  rw [show cs = b.layout.columns.tail by rw [hcols, List.tail_cons], ← surplus_eq hda hdb hlen]
    at hfit
  have hsource := stock_of_swapRemove hx.row hx.sourceRows hx.sourceBlank
  have htarget : b'.stock =
      b.stock +
        owned (contents (fitted w.lifetimes.count (a.labelled r) b.layout.columns.tail)) := by
    rw [Archetype.stock, Archetype.entries_append hx.targetRows hx.targetBlank, stockOf_append,
      stockOf_singleton, Archetype.labelled, zip_fitted, Archetype.stock]
  have hput := Catalogue.total_set Archetype.stock hx.target b'
  have hget : (w.catalogue.set id b').get? l.archetype = some a := by
    rw [Catalogue.get_set hx.target, Function.update_of_ne hx.apart, hx.source]
  have htake := Catalogue.total_set Archetype.stock hget a'
  have hw' : w'.stock =
      ((w.catalogue.set id b').set l.archetype a').total Archetype.stock := by
    rw [stock, hx.catalogue]
    exact Catalogue.total_recycle _ fun _ ha he =>
      Archetype.stock_of_isEmpty ((hx.sound_set hs).packed _ _ ha) he
  refine ⟨_, by rw [hx.events, List.append_assoc], ?_⟩
  rw [ended_append, begun_append, ended_makeEvents, begun_dropEvents, ended_dropEvents,
    begun_makeEvents, hw']
  generalize owned (contents (a.labelled r)) = carried at hsource hfit
  generalize owned (contents (fitted _ (a.labelled r) b.layout.columns.tail)) = new
    at htarget hfit
  -- in between the carried values are in both archetypes, and counted twice
  have hmiddle : (w.catalogue.set id b').total Archetype.stock = w.stock + new := by
    apply add_right_cancel (b := b.stock)
    rw [hput, htarget, stock]
    abel
  have hboth : ((w.catalogue.set id b').set l.archetype a').total Archetype.stock + carried =
      w.stock + new := by
    apply add_right_cancel (b := a'.stock)
    calc _ = _ + (a'.stock + carried) := by abel
      _ = w.stock + new + a'.stock := by rw [hsource, htake, hmiddle]
  apply add_right_cancel (b := carried)
  calc _ = _ + carried + owned (surplus (a.labelled r) b) := by simp; abel
    _ = w.stock + (new + owned (surplus (a.labelled r) b)) := by rw [hboth]; abel
    _ = _ := by rw [hfit]; simp; abel

end World

end EntityStore
