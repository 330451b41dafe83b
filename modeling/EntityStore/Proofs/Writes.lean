import Mathlib
import EntityStore.Proofs.Reading
import EntityStore.Proofs.Transition
import EntityStore.Proofs.Views

/-!
# Writing components

The ways to write components without placing an entity: one component by its code or kind, and
columns of chunks. A write of a sound store is a run of changes inside archetypes, none of which
touches a handle.
-/
namespace EntityStore

variable {w v w' : World} {h : Handle} {id n : Nat} {a b : Archetype} {c c' : Chunk}
  {gone : List (Kind × Value)} {x y : Traffic}

lemma rowsStock_flatMap (ks : List Kind) (cs : List Chunk) :
    rowsStock ks (cs.flatMap Chunk.rows) = (cs.map fun c => rowsStock ks c.rows).sum := by
  induction cs with
  | nil => rfl
  | cons c cs ih => rw [List.flatMap_cons, rowsStock_append, List.map_cons, List.sum_cons, ih]

namespace World

lemma written_of_stock (ha : w.catalogue.get? id = some a) (hp : b.Packed)
    (hblank : b.blank = a.blank) (hroster : b.rows.map Row.handle = a.rows.map Row.handle)
    (hreshaped : a.Reshaped w.version w.pool b w.pool)
    (hstock : b.stock + owned gone + x.leaving = a.stock + x.entering) :
    Written w { w with
      catalogue := w.catalogue.set id b, lifetimes := w.lifetimes.dropAll gone } id a b x := by
  have hevents := congrArg Lifetimes.events (Lifetimes.dropAll_eq w.lifetimes gone)
  refine ⟨ha, hp, hblank, hroster, rfl, rfl, hreshaped, ⟨rfl, rfl, rfl, .refl _⟩, ⟨gone, hevents⟩,
    _, hevents, ?_⟩
  have htotal := Catalogue.total_set Archetype.stock ha b
  rw [ended_dropEvents, begun_dropEvents, add_zero]
  change (w.catalogue.set id b).total Archetype.stock + _ + _ = _
  apply add_right_cancel (b := a.stock)
  calc _ = (w.catalogue.set id b).total Archetype.stock + a.stock + owned gone + x.leaving := by
        abel
    _ = w.stock + (b.stock + owned gone + x.leaving) := by
      rw [htotal, stock]
      abel
    _ = _ := by
      rw [hstock]
      abel

lemma written_setChunk (hs : w.Sound) (ha : w.catalogue.get? id = some a)
    (hc : a.chunks[n]? = some c) (hr : Chunk.Rewritten w.version a.layout c c' gone x) :
    Written w { w.setChunk id a n c' with lifetimes := w.lifetimes.dropAll gone } id a
      (a.modifyChunk n fun _ => c') x := by
  have hp := hs.catalogue.packed _ a ha
  have hshaped := hp.shaped c (List.mem_of_getElem? hc)
  have hsame : ∀ d, a.chunks[n]? = some d → d = c := fun d hd => by
    rw [hc] at hd
    exact (Option.some.inj hd).symm
  refine written_of_stock ha ?_ rfl ?_ ?_ ?_
  · exact Archetype.packed_modifyChunk hp (fun d hd => by rw [hsame d hd]; exact hr.length)
      fun d hd => hr.shaped hshaped
  · have hmap : (a.modifyChunk n fun _ => c').chunks.map (fun d => d.rows.map Row.handle) =
        a.chunks.map (fun d => d.rows.map Row.handle) :=
      Archetype.map_modify _ fun d hd => by rw [hsame d hd]; exact hr.handles
    rw [Archetype.rows, Archetype.rows, List.map_flatMap, List.map_flatMap, List.flatMap_def,
      List.flatMap_def, hmap]
  · exact Archetype.reshaped_modifyChunk (fun d hd => by rw [hsame d hd]; exact hr.traced) w.pool
  · have hchunk := sum_map_set (fun c => rowsStock a.layout.kinds.tail c.rows) hc c'
    rw [← rowsStock_flatMap, ← rowsStock_flatMap, List.set_eq_modify] at hchunk
    rw [Archetype.stock_eq, Archetype.stock_eq]
    change rowsStock a.layout.kinds.tail (a.modifyChunk n fun _ => c').rows + _ + _ = _
    apply add_right_cancel (b := rowsStock a.layout.kinds.tail c.rows)
    calc _ = rowsStock a.layout.kinds.tail (a.modifyChunk n fun _ => c').rows +
          rowsStock a.layout.kinds.tail c.rows + (owned gone + x.leaving) := by abel
      _ = rowsStock a.layout.kinds.tail a.rows +
          (rowsStock a.layout.kinds.tail c'.rows + owned gone + x.leaving) := by
        rw [show rowsStock _ (a.modifyChunk n fun _ => c').rows + _ = _ from hchunk]
        simp only [Archetype.rows]
        abel
      _ = _ := by
        rw [hr.balance]
        abel

lemma written_modifyCell {i j : Nat} {r : Row} {e : Registration} {u : Value} {f : Value → Value}
    (hs : w.Sound) (ha : w.catalogue.get? id = some a) (hr : a.rows[i]? = some r)
    (he : a.layout.columns.tail[j]? = some e) (hu : r.values[j]? = some u)
    (hm : a.modifyCell (j + 1) i f w.version = .ok b)
    (hx : owned [(e.kind, f u)] + owned gone + x.leaving = owned [(e.kind, u)] + x.entering) :
    Written w { w with
      catalogue := w.catalogue.set id b, lifetimes := w.lifetimes.dropAll gone } id a b x := by
  obtain ⟨hp, hrows, hblank⟩ := Archetype.modifyCell_spec (hs.catalogue.packed _ a ha) hm
  refine written_of_stock ha hp hblank ?_ (Archetype.reshaped_modifyCell hm w.pool) ?_
  · rw [hrows]
    exact Archetype.map_modify _ fun s hs => Row.handle_modify s f (j + 1)
  · have hk : a.layout.kinds.tail[j]? = some e.kind := by
      rw [Layout.kinds, ← List.map_tail, List.getElem?_map, he]
      rfl
    have hcell := rowsStock_modify (f := f) hk hr hu
    rw [Archetype.stock_eq, Archetype.stock_eq, hrows, Archetype.layout_of_blank hblank]
    apply add_right_cancel (b := owned [(e.kind, u)])
    calc _ = rowsStock a.layout.kinds.tail (a.rows.modify i (·.modify f (j + 1))) +
          owned [(e.kind, u)] + (owned gone + x.leaving) := by abel
      _ = rowsStock a.layout.kinds.tail a.rows +
          (owned [(e.kind, f u)] + owned gone + x.leaving) := by
        rw [hcell]
        abel
      _ = _ := by
        rw [hx]
        abel

/-- A component that is there and can be written, the archetype afterwards being `b`. -/
structure Touched (w : World) (h : Handle) (t : TypeCode) (f : Value → Value) (l : Location)
    (a b : Archetype) (r : Row) (j : Nat) (e : Registration) (u : Value) : Prop where
  found : w.catalogue.get? l.archetype = some a
  placed : w.handles.location h = .ok (some l)
  row : a.rows[l.index]? = some r
  handle : r.handle = h
  column : a.layout.columns.tail[j]? = some e
  value : r.values[j]? = some u
  first : (a.labelled r).find? (fun x => x.1.code = t) = some (e, u)
  cell : a.modifyCell (j + 1) l.index f w.version = .ok b

lemma modifyCell_ok {i : Nat} {r : Row} (hp : a.Packed) (hr : a.rows[i]? = some r) (j : Nat)
    (f : Value → Value) (version : UInt32) : ∃ b, a.modifyCell j i f version = .ok b := by
  have hi : i < a.count := by
    rw [hp.counted]
    exact (List.getElem?_eq_some_iff.mp hr).1
  exact ⟨_, by rw [Archetype.modifyCell, Archetype.locate, if_pos hi]; rfl⟩

/-- Writing a component is refused, finds nothing, or changes what reading finds. -/
theorem modifyComponent_cases (hs : w.Sound) (h : Handle) (t : TypeCode) (f : Value → Value) :
    ((∃ e, modifyComponent h t f w = .error (.refused e) w) ∧
      (t = .entity ∨ ∃ e, w.component h t = .error e)) ∨
    (modifyComponent h t f w = .ok none w ∧ w.component h t = .ok none) ∨
    ∃ l a b r j e u, Touched w h t f l a b r j e u ∧ w.component h t = .ok (some u) ∧
      modifyComponent h t f w =
        .ok (some u) { w with catalogue := w.catalogue.set l.archetype b } := by
  unfold modifyComponent
  by_cases ht : t = .entity
  · exact .inl ⟨⟨_, by rw [if_pos ht]⟩, .inl ht⟩
  simp only [if_neg ht]
  cases hl : w.handles.location h with
  | error e => exact .inl ⟨⟨e, rfl⟩, .inr ⟨e, by simp only [component, hl]⟩⟩
  | ok m =>
    cases m with
    | none => exact .inr (.inl ⟨rfl, by simp only [component, hl]⟩)
    | some l =>
      obtain ⟨a, r, ha, hp, hr, hh⟩ := hs.get hl
      have hget := Catalogue.get_eq_ok.mpr ha
      cases hs.cell ha hr ht with
      | missing hi hf =>
        refine .inr (.inl ⟨?_, ?_⟩)
        · simp only [hget, hi]
        · simp only [component, hl, hget, hi]
      | @there j e u hi he hu hf =>
        obtain ⟨b, hb⟩ := modifyCell_ok hp hr (j + 1) f w.version
        have hcell : a.cell (j + 1) l.index = .ok u := by
          simp only [Archetype.cell, (Archetype.row_eq_ok hp).mpr hr, Row.cell, hu]
        refine .inr (.inr ⟨l, a, b, r, j, e, u, ⟨ha, hl, hr, hh, he, hu, hf, hb⟩, ?_, ?_⟩)
        · simp only [component, hl, hget, hi, hcell, Except.map]
        · simp only [hget, hi, hcell, hb]

variable {f : Value → Value} {t : TypeCode} {l : Location} {r : Row} {j : Nat} {e : Registration}
  {u : Value}

lemma Touched.code (ht : Touched w h t f l a b r j e u) : e.code = t := by
  simpa using List.find?_some ht.first

lemma Touched.registration (hs : w.Sound) (ht : Touched w h t f l a b r j e u) :
    w.registry.registration t = .ok e := by
  obtain ⟨first, cs, hcols, -, hcs⟩ := (hs.catalogue.drafted _ a ht.found).columns
  have he := ht.column
  rw [hcols, List.tail_cons] at he
  rw [← ht.code]
  exact Registry.registration_of_mem hcs (List.mem_of_getElem? he)

lemma Touched.written (hs : w.Sound) (ht : Touched w h t f l a b r j e u)
    (gone : List (Kind × Value))
    (hx : owned [(e.kind, f u)] + owned gone + x.leaving = owned [(e.kind, u)] + x.entering) :
    Written w { w with
      catalogue := w.catalogue.set l.archetype b, lifetimes := w.lifetimes.dropAll gone }
      l.archetype a b x :=
  written_modifyCell hs ht.found ht.row ht.column ht.value ht.cell hx

/-- Only the entity that was written has other components, and only one is another. -/
theorem Touched.entry (hs : w.Sound) (ht : Touched w h t f l a b r j e u)
    (hl : w'.handles.location = w.handles.location)
    (hc : w'.catalogue = w.catalogue.set l.archetype b) :
    w.entry h = .ok (a.labelled r) ∧ w'.entry = Function.update w.entry h
      (.ok ((a.labelled r).modify j fun x => (x.1, f x.2))) := by
  refine ⟨entry_of_row ht.found ht.placed ht.row, ?_⟩
  obtain ⟨-, hrows, hblank⟩ := Archetype.modifyCell_spec (hs.catalogue.packed _ a ht.found) ht.cell
  have hentries : b.entries =
      a.entries.set l.index (h, (a.labelled r).modify j fun x => (x.1, f x.2)) := by
    have hset : b.rows = a.rows.set l.index (r.modify f (j + 1)) := by
      rw [hrows, List.modify_eq_set_getElem?, ht.row]
      rfl
    rw [Archetype.entries, hset, List.map_set, Row.handle_modify, ht.handle,
      Archetype.labelled_of_layout (Archetype.layout_of_blank hblank), Archetype.labelled_modify]
    simp only [Archetype.entries, Archetype.labelled, Archetype.layout_of_blank hblank]
  rw [World.entry, hl, hc, Catalogue.entries_set ht.found, hentries,
    ← Catalogue.entries_of_get ht.found]
  exact hs.placed.entryAt_set ht.placed _

/-- Any number of changes inside archetypes. -/
inductive Rewrites : World → Traffic → World → Prop
  | refl (w : World) : Rewrites w 0 w
  | step {w v w' : World} {id : Nat} {a b : Archetype} {x y : Traffic}
      (hx : Written w v id a b x) (hy : Rewrites v y w') : Rewrites w (x + y) w'

lemma Written.rewrites (hx : Written w w' id a b x) : Rewrites w x w' := by
  rw [← add_zero x]
  exact .step hx (.refl w')

namespace Rewrites

lemma transitions (hx : Rewrites w x w') : Transitions w x w' := by
  induction hx with
  | refl w => exact .refl w
  | step hx _ ih => exact .step (.written hx) ih

theorem trans (hx : Rewrites w x v) (hy : Rewrites v y w') : Rewrites w (x + y) w' := by
  induction hx with
  | refl w => rwa [zero_add]
  | step hx _ ih =>
    rw [add_assoc]
    exact .step hx (ih hy)

lemma handles_eq (hx : Rewrites w x w') : w'.handles = w.handles := by
  induction hx with
  | refl w => rfl
  | step hx _ ih => rw [ih, hx.handles]

lemma sound (hs : w.Sound) (hx : Rewrites w x w') : w'.Sound := hx.transitions.sound hs

end Rewrites

lemma view_eq_some {vw : View} (h : w.view? id n = some (a, vw)) :
    w.catalogue.get? id = some a ∧ a.chunks[n]? = some vw.chunk ∧ vw.layout = a.layout := by
  unfold view? at h
  obtain ⟨a', ha, hv⟩ := Option.bind_eq_some_iff.mp h
  obtain ⟨v', hv', he⟩ := Option.map_eq_some_iff.mp hv
  obtain ⟨rfl, rfl⟩ := Prod.mk.inj he
  obtain ⟨c, hc, rfl⟩ := Option.map_eq_some_iff.mp hv'
  exact ⟨ha, hc, rfl⟩

lemma rewrites_view {vw : View} (hs : w.Sound) (hv : w.view? id n = some (a, vw))
    (gone : List (Kind × Value)) (hr : vw.chunk.Shaped vw.layout.columns.length →
      Chunk.Rewritten w.version vw.layout vw.chunk c' gone x) :
    Rewrites w x { w.setChunk id a n c' with lifetimes := w.lifetimes.dropAll gone } := by
  obtain ⟨ha, hc, hl⟩ := view_eq_some hv
  rw [hl] at hr
  have hshaped := (hs.catalogue.packed _ a ha).shaped _ (List.mem_of_getElem? hc)
  exact (written_setChunk hs ha hc (hr hshaped)).rewrites

def editColumn (w : World) (id chunk : Nat) (k : Kind) (t : TypeCode) (e : Edit) : World :=
  ((w.editComponents id chunk k t e).map Prod.snd).getD w

def columnTraffic (w : World) (id chunk : Nat) (k : Kind) (t : TypeCode) (e : Edit) : Traffic :=
  match w.view? id chunk with
  | none => 0
  | some (_, v) => v.trafficAt k t e w.version

lemma rewrites_editColumn (hs : w.Sound) (id n : Nat) (k : Kind) (t : TypeCode) (e : Edit) :
    Rewrites w (w.columnTraffic id n k t e) (w.editColumn id n k t e) := by
  unfold editColumn columnTraffic editComponents
  cases hv : w.view? id n with
  | none => exact .refl w
  | some av =>
    obtain ⟨a, vw⟩ := av
    cases hd : vw.editComponents k t e w.version with
    | some d =>
      simp only [Option.map_some, hd, Option.getD_some]
      exact rewrites_view hs hv _ fun hc => View.rewritten_editComponents hc hd
    | none =>
      simp only [Option.map_some, hd, Option.getD_some, View.trafficAt]
      have hnone : ∀ j, View.columnAs vw.layout k t = some j →
          (vw.editColumn j e w.version).toOption = none := by
        intro j hj
        rw [View.editComponents, hj] at hd
        exact hd
      cases hj : View.columnAs vw.layout k t with
      | none => exact .refl w
      | some j =>
        have hj := hnone j hj
        cases he : vw.editColumn j e w.version with
        | ok d => simp [he, Except.toOption] at hj
        | error f =>
          simp only [View.traffic, he]
          exact .refl w

def runTraffic (w : World) (id : Nat) (k : Kind) (t : TypeCode) (e : Edit) : Nat → Nat → Traffic
  | 0, _ => 0
  | n + 1, chunk =>
      match w.editComponents id chunk k t e with
      | none => 0
      | some (_, w') =>
          w.columnTraffic id chunk k t e + w'.runTraffic id k t e n (chunk + 1)

lemma rewrites_editRun (hs : w.Sound) (id : Nat) (k : Kind) (t : TypeCode) (e : Edit)
    (n chunk : Nat) :
    Rewrites w (w.runTraffic id k t e n chunk) (w.editRun id k t e n chunk).2 := by
  induction n generalizing w chunk with
  | zero => exact .refl w
  | succ n ih =>
    have hfirst := rewrites_editColumn hs id chunk k t e
    unfold runTraffic editRun
    cases hd : w.editComponents id chunk k t e with
    | none => exact .refl w
    | some dw =>
      rw [editColumn, hd] at hfirst
      exact hfirst.trans (ih (hfirst.sound hs) (chunk + 1))

/-- The store after an operation, whether it answers or fails. -/
def after {α : Type} : EStateM.Result Failure World α → World
  | .ok _ w => w
  | .error _ w => w

/-- Why an operation failed, if it did. -/
def failure {α : Type} : EStateM.Result Failure World α → Option Failure
  | .ok _ _ => none
  | .error e _ => some e

@[simp] lemma failure_ok {α : Type} (x : α) (w : World) :
    failure (.ok x w : EStateM.Result Failure World α) = none := rfl

lemma eq_ok_of_failure {r : EStateM.Result Failure World Unit} (h : failure r = none) :
    r = .ok () (after r) := by
  cases r with
  | ok => rfl
  | error => cases h

lemma eq_error_of_failure {α : Type} {r : EStateM.Result Failure World α} {e : Failure}
    (h : failure r = some e) : r = .error e (after r) := by
  cases r with
  | ok => cases h
  | error => rw [Option.some.inj h, after]

end World

inductive Write
  /-- Changes what a component contains. -/
  | component (handle : Handle) (code : TypeCode) (f : Content → Content)
  /-- Hands over a value in place of a component. -/
  | exchange (handle : Handle) (kind : Kind) (value : Value)
  | bytes (archetype chunk column : Nat) (f : Nat → UInt8 → UInt8)
  | column (archetype chunk : Nat) (kind : Kind) (code : TypeCode) (edit : Edit)
  | columns (archetype : Nat) (kind : Kind) (code : TypeCode) (edit : Edit)
  | borrow (archetype chunk : Nat) (requests : List Borrows.Request)

namespace Write

open World

def run (w : World) : Write → World
  | component h t f => after (modifyComponent h t (fun v => v.amend (f v.content)) w)
  | exchange h k v => after (World.exchange h k v w)
  | bytes id chunk j f => ((w.editBytes id chunk j f).map Prod.snd).getD w
  | column id chunk k t e => w.editColumn id chunk k t e
  | columns id k t e => ((w.editAll id k t e).map Prod.snd).getD w
  | borrow id chunk rs => ((w.borrow id chunk rs).map Prod.snd).getD w

/-- What a write hands over and what it changes in place. -/
def traffic (w : World) : Write → Traffic
  | component h t f =>
      match w.component h t, w.registry.registration t with
      | .ok (some v), .ok e => (0, owned [(e.kind, v, f v.content)])
      | _, _ => 0
  | exchange h k v =>
      match w.get h k with
      | .ok (some _) => (owned [(k, v)], 0)
      | _ => 0
  | bytes id chunk j f =>
      match w.view? id chunk with
      | some (a, v) => v.traffic j (.ofBytes ((a.layout.sizes[j]?).getD 0) f) w.version
      | none => 0
  | column id chunk k t e => w.columnTraffic id chunk k t e
  | columns id k t e =>
      match w.catalogue.get? id with
      | some a => w.runTraffic id k t e a.chunks.length 0
      | none => 0
  | borrow id chunk rs =>
      match w.view? id chunk with
      | some (_, v) => Borrows.traffic { view := v, version := w.version } rs
      | none => 0

lemma rewrites_component (hs : w.Sound) (h : Handle) (t : TypeCode) (f : Content → Content) :
    Rewrites w ((component h t f).traffic w) ((component h t f).run w) := by
  obtain ⟨name, hname⟩ := hs.registry.entity
  rcases modifyComponent_cases hs h t fun v => v.amend (f v.content) with
    ⟨⟨e, hm⟩, rfl | ⟨e', hc⟩⟩ | ⟨hm, hc⟩ | ⟨l, a, b, r, j, e, u, ht, hc, hm⟩
  · -- values of the handle column belong to nobody
    have hzero : (component h .entity f).traffic w = 0 := by
      simp only [traffic, hname]
      cases w.component h .entity with
      | error e => rfl
      | ok m => cases m <;> rfl
    rw [hzero, run, hm]
    exact .refl w
  · simp only [traffic, run, hm, hc]
    exact .refl w
  · simp only [traffic, run, hm, hc]
    exact .refl w
  · simp only [traffic, run, hm, hc, ht.registration hs]
    refine (ht.written hs [] ?_).rewrites
    simp [Traffic.entering, Traffic.leaving, map_owned_singleton, add_comm]

lemma rewrites_exchange (hs : w.Sound) (h : Handle) (k : Kind) (v : Value) :
    Rewrites w ((exchange h k v).traffic w) ((exchange h k v).run w) := by
  obtain ⟨name, hname⟩ := hs.registry.entity
  simp only [traffic, run, World.exchange, World.get]
  cases hk : w.registry.lookup k .none with
  | none =>
    cases w.handles.location h <;> exact .refl w
  | some t =>
    have hreg := ((Registry.lookup_eq_some hs.registry).mp hk).2
    rcases modifyComponent_cases hs h t fun _ => v with
      ⟨⟨e, hm⟩, rfl | ⟨e', hc⟩⟩ | ⟨hm, hc⟩ | ⟨l, a, b, r, j, e, u, ht, hc, hm⟩
    · have hzero : owned [(k, v)] = 0 := by
        have hkind := Except.ok.inj (hname.symm.trans hreg)
        obtain ⟨-, rfl⟩ := Registration.mk.inj hkind
        rfl
      simp only [hm, hzero]
      split <;> exact .refl w
    · simp only [hm, hc]
      exact .refl w
    · simp only [hm, hc]
      exact .refl w
    · have hkind := Except.ok.inj ((ht.registration hs).symm.trans hreg)
      subst hkind
      simp only [hm, hc]
      refine (ht.written hs [(k, u)] ?_).rewrites
      simp [Traffic.entering, Traffic.leaving, add_comm]

lemma rewrites_bytes (hs : w.Sound) (id chunk j : Nat) (f : Nat → UInt8 → UInt8) :
    Rewrites w ((bytes id chunk j f).traffic w) ((bytes id chunk j f).run w) := by
  simp only [traffic, run, editBytes]
  cases hv : w.view? id chunk with
  | none => exact .refl w
  | some av =>
    obtain ⟨a, vw⟩ := av
    simp only [Option.map_some, Option.getD_some]
    cases hd : vw.editColumn j (.ofBytes ((a.layout.sizes[j]?).getD 0) f) w.version with
    | error e =>
      simp only [View.traffic, hd]
      exact .refl w
    | ok d =>
      refine rewrites_view hs hv [] fun hc => ?_
      obtain ⟨k, -, hr⟩ := View.rewritten_editColumn hc hd
      have hnone : d.replaced = [] := by
        obtain ⟨i, -, rfl, -, -, hreplaced⟩ := View.editColumn_eq_ok hd
        rw [hreplaced, Chunk.replaced, List.map_eq_nil_iff, List.filter_eq_nil_iff]
        intro vi _
        simp [Edit.ofBytes, Change.givesUp]
      rw [hnone] at hr
      exact hr

lemma rewrites_borrow (hs : w.Sound) (id chunk : Nat) (rs : List Borrows.Request) :
    Rewrites w ((borrow id chunk rs).traffic w) ((borrow id chunk rs).run w) := by
  simp only [traffic, run, World.borrow]
  cases hv : w.view? id chunk with
  | none => exact .refl w
  | some av =>
    exact rewrites_view hs hv _ fun hc =>
      (Borrows.rewritten_serve (b := { view := av.2, version := w.version }) hc).2

/-- Every write is a run of changes inside archetypes. -/
theorem rewrites (hs : w.Sound) (m : Write) : Rewrites w (m.traffic w) (m.run w) := by
  cases m with
  | component h t f => exact rewrites_component hs h t f
  | exchange h k v => exact rewrites_exchange hs h k v
  | bytes id chunk j f => exact rewrites_bytes hs id chunk j f
  | column id chunk k t e => exact rewrites_editColumn hs id chunk k t e
  | columns id k t e =>
    simp only [traffic, run, editAll]
    cases w.catalogue.get? id with
    | none => exact .refl w
    | some a => exact rewrites_editRun hs id k t e a.chunks.length 0
  | borrow id chunk rs => exact rewrites_borrow hs id chunk rs

end Write

end EntityStore
