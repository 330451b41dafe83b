import Mathlib
import EntityStore.Proofs.RoundTrip
import EntityStore.Proofs.Stamping

/-!
# Entities that change their archetype

Which stamps an operation renews can be told from where entities were before and are afterwards. An
entity that is in another archetype has renewed those of the chunk it came to, and those of the
chunk it left unless it was in the last row of the archetype. An operation renews no others, but
for the column that a value is stored in.
-/
namespace EntityStore

namespace World

/-- The place is the last one of its archetype. -/
def IsLast (w : World) (l : Location) : Prop :=
  ∃ a, w.catalogue.get? l.archetype = some a ∧ l.index + 1 = a.count

/-- Where the entities are that were not in that archetype before. -/
def arrivals (w w' : World) : Set Location :=
  {l | ∃ e, w'.handles.location e = .ok (some l) ∧ w.archetypeOf e ≠ .ok (some l.archetype)}

/-- All columns of the chunk of a place. -/
def columnsAt (w : World) (l : Location) : Set (Nat × Nat × Nat) :=
  {x | x.1 = l.archetype ∧
    ∃ a, w.catalogue.get? l.archetype = some a ∧ x.2.1 = l.index / a.capacity}

/-- All columns of the chunks that entities have come to, and of those that they have left other
than from the last place. -/
def crossed (w w' : World) : Set (Nat × Nat × Nat) :=
  {x | (∃ l ∈ w.arrivals w', x ∈ w'.columnsAt l) ∨
    ∃ l ∈ w'.arrivals w, ¬ w.IsLast l ∧ x ∈ w.columnsAt l}

variable {w v v' w' : World} {e h d : Handle} {l m : Location} {id : Nat} {ts : List TypeCode}
  {a a' b b' : Archetype} {r : Row} {x : Nat × Nat × Nat} {o : Except Fault (Option Nat)}
  {f : Except Fault (Option Location)} {fault : Fault}
  {g : List TypeCode → List TypeCode → List TypeCode}

lemma isLast_iff (ha : w.catalogue.get? l.archetype = some a) :
    w.IsLast l ↔ l.index + 1 = a.count := by
  simp [IsLast, ha]

lemma mem_columnsAt (ha : w.catalogue.get? l.archetype = some a) :
    x ∈ w.columnsAt l ↔ x.1 = l.archetype ∧ x.2.1 = l.index / a.capacity := by
  simp [columnsAt, ha]

lemma archetypeOf_eq_some :
    w.archetypeOf h = .ok (some id) ↔ ∃ i, w.handles.location h = .ok (some ⟨id, i⟩) := by
  unfold archetypeOf
  constructor
  · intro ho
    obtain ⟨l, hl, hid⟩ := ok_of_map ho
    obtain ⟨m, rfl, rfl⟩ := Option.map_eq_some_iff.mp hid
    exact ⟨m.index, hl⟩
  · rintro ⟨i, hl⟩
    rw [hl]
    rfl

lemma archetypeOf_of_location (hl : w.handles.location h = .ok (some l)) :
    w.archetypeOf h = .ok (some l.archetype) := archetypeOf_eq_some.mpr ⟨l.index, hl⟩

lemma archetypeOf_ne (hn : ∀ m, w.handles.location h ≠ .ok (some m)) (id : Nat) :
    w.archetypeOf h ≠ .ok (some id) := fun ho =>
  let ⟨_, hl⟩ := archetypeOf_eq_some.mp ho
  hn _ hl

/-- Entities are in the same places. -/
def Settled (v w : World) : Prop :=
  ∀ e l, v.handles.location e = .ok (some l) ↔ w.handles.location e = .ok (some l)

lemma Settled.of_update (ho : v.handles.location = Function.update w.handles.location h f)
    (hn : ∀ m, w.handles.location h ≠ .ok (some m)) (hf : ∀ m, f ≠ .ok (some m)) : Settled v w := by
  intro e l
  rw [ho]
  by_cases he : e = h
  · rw [he, Function.update_self]
    exact iff_of_false (hf l) (hn l)
  · rw [Function.update_of_ne he]

lemma Settled.archetypeOf (hv : Settled v w) : v.archetypeOf e = .ok (some id) ↔
    w.archetypeOf e = .ok (some id) := by
  rw [archetypeOf_eq_some, archetypeOf_eq_some]
  exact exists_congr fun i => hv e ⟨id, i⟩

lemma Settled.crossed_eq_empty (hv : Settled v w) : w.crossed v = ∅ := by
  have hnone : ∀ {v w : World} {l : Location}, Settled v w → l ∉ w.arrivals v := by
    rintro v w l hv ⟨e, hl, hne⟩
    exact hne (archetypeOf_of_location ((hv e l).mp hl))
  have hback : Settled w v := fun e l => (hv e l).symm
  rw [Set.eq_empty_iff_forall_notMem]
  rintro x (⟨l, hl, -⟩ | ⟨l, hl, -⟩)
  · exact hnone hv hl
  · exact hnone hback hl

lemma arrivals_congr (hv : Settled v w) (hv' : Settled v' w') : v.arrivals v' = w.arrivals w' := by
  ext l
  exact exists_congr fun e => and_congr (hv' e l) (not_congr hv.archetypeOf)

/-- What is different in the store before must not be what entities are in. -/
lemma crossed_congr_left (hv : Settled v w) (hget : ∀ e l, w.handles.location e = .ok (some l) →
    v.catalogue.get? l.archetype = w.catalogue.get? l.archetype) : v.crossed w' = w.crossed w' := by
  have hsame : ∀ l ∈ w'.arrivals w, (v.IsLast l ↔ w.IsLast l) ∧ v.columnsAt l = w.columnsAt l := by
    rintro l ⟨e, hl, -⟩
    have hgetl := hget e l hl
    simp only [IsLast, columnsAt, hgetl, and_self]
  have hrefl : Settled w' w' := fun _ _ => Iff.rfl
  ext x
  simp only [crossed, arrivals_congr hv hrefl, arrivals_congr hrefl hv]
  refine or_congr Iff.rfl (exists_congr fun l => and_congr_right fun hl => ?_)
  rw [(hsame l hl).1, (hsame l hl).2]

/-- What is different in the store afterwards must not be the sizes of its chunks. -/
lemma crossed_congr_right (hv : Settled v w') (hcolumns : ∀ l, v.columnsAt l = w'.columnsAt l) :
    w.crossed v = w.crossed w' := by
  have hrefl : Settled w w := fun _ _ => Iff.rfl
  ext x
  simp only [crossed, arrivals_congr hv hrefl, arrivals_congr hrefl hv, hcolumns]

section Update
variable (ho : w'.archetypeOf = Function.update w.archetypeOf h o)
include ho

lemma archetypeOf_back : w.archetypeOf = Function.update w'.archetypeOf h (w.archetypeOf h) := by
  rw [ho, Function.update_idem, Function.update_eq_self]

lemma mem_arrivals : l ∈ w.arrivals w' ↔
    w'.handles.location h = .ok (some l) ∧ w.archetypeOf h ≠ .ok (some l.archetype) := by
  constructor
  · rintro ⟨e, hl, hne⟩
    by_cases he : e = h
    · exact he ▸ ⟨hl, hne⟩
    · refine absurd ?_ hne
      rw [← Function.update_of_ne he o w.archetypeOf, ← ho, archetypeOf_of_location hl]
  · exact fun hl => ⟨h, hl⟩

lemma arrivals_eq_empty (hn : ∀ m, w'.handles.location h ≠ .ok (some m)) : w.arrivals w' = ∅ :=
  Set.eq_empty_iff_forall_notMem.mpr fun l hl => hn l ((mem_arrivals ho).mp hl).1

lemma arrivals_eq_singleton (hl : w'.handles.location h = .ok (some l))
    (hne : w.archetypeOf h ≠ .ok (some l.archetype)) : w.arrivals w' = {l} := by
  ext m
  rw [mem_arrivals ho, hl, Except.ok.injEq, Option.some.injEq, Set.mem_singleton_iff, eq_comm]
  exact and_iff_left_of_imp fun hm => hm ▸ hne

lemma crossed_of_come (hn : ∀ m, w.handles.location h ≠ .ok (some m))
    (hl : w'.handles.location h = .ok (some l)) : w.crossed w' = w'.columnsAt l := by
  ext x
  simp [crossed, arrivals_eq_singleton ho hl (archetypeOf_ne hn _),
    arrivals_eq_empty (archetypeOf_back ho) hn]

lemma crossed_of_go (hl : w.handles.location h = .ok (some l))
    (hn : ∀ m, w'.handles.location h ≠ .ok (some m)) :
    w.crossed w' = {x | ¬ w.IsLast l ∧ x ∈ w.columnsAt l} := by
  ext x
  simp [crossed, arrivals_eq_empty ho hn,
    arrivals_eq_singleton (archetypeOf_back ho) hl (archetypeOf_ne hn _)]

lemma crossed_of_across (hl : w.handles.location h = .ok (some l))
    (hm : w'.handles.location h = .ok (some m)) (hne : l.archetype ≠ m.archetype) :
    w.crossed w' = w'.columnsAt m ∪ {x | ¬ w.IsLast l ∧ x ∈ w.columnsAt l} := by
  have hcome : w.arrivals w' = {m} :=
    arrivals_eq_singleton ho hm (by simpa [archetypeOf_of_location hl] using hne)
  have hgo : w'.arrivals w = {l} :=
    arrivals_eq_singleton (archetypeOf_back ho) hl
      (by simpa [archetypeOf_of_location hm] using hne.symm)
  ext x
  simp [crossed, hcome, hgo]

end Update

lemma columnsAt_eq {n : Nat} (ha : w.catalogue.get? l.archetype = some a)
    (hn : n = l.index / a.capacity) :
    w.columnsAt l = {x | x.1 = l.archetype ∧ x.2 ∈ Archetype.chunkColumns n} := by
  ext x
  rw [mem_columnsAt ha, ← hn]
  rfl

lemma Opened.stampAt (ho : Opened w v id a) {x : Nat × Nat} {u : UInt32}
    (hu : a.stampAt x = some u) : w.catalogue.stampAt (id, x) = some u := by
  cases ho with
  | found ha => rwa [Catalogue.stampAt_of_get ha]
  | added ha =>
    -- a new archetype has no chunks
    obtain ⟨c, hc, -⟩ := Archetype.stampAt_eq_some.mp hu
    simp [ha.chunks] at hc

lemma Opened.stamped (ho : Opened w v id a) (n : UInt32) :
    Stamped n ∅ w.catalogue.stampAt v.catalogue.stampAt := by
  have hopened := Catalogue.stamped_of_update ho.get_eq (v := n)
    (Stamped.of_kept fun x u hu => ho.stampAt hu)
  exact hopened.congr fun x => iff_of_false And.right (Set.notMem_empty x)

section Rows
variable {c c' : Catalogue} {p q : Pool} {n : UInt32} {y : Option Handle}

lemma stamped_come (ha : c.get? id = some a) (hp : a.Packed) (hx : a.Appended n p r b q)
    (hblank : b.blank = a.blank) (hc : c'.get? = Function.update c.get? id (some b))
    (hget : w'.catalogue.get? id = some b) :
    Stamped n (w'.columnsAt ⟨id, a.rows.length⟩) c.stampAt c'.stampAt := by
  have hcap : b.capacity = a.capacity := congrArg Layout.capacity (Archetype.layout_of_blank hblank)
  have hchunk : a.count / a.capacity = a.rows.length / b.capacity := by rw [hp.counted, hcap]
  rw [columnsAt_eq (l := ⟨id, a.rows.length⟩) hget hchunk]
  exact Catalogue.stamped_of_update hc
    ((hx.stamped hp).mono fun x u hu => (Catalogue.stampAt_of_get ha x).trans hu)

lemma stamped_leave (hl : w.catalogue.get? l.archetype = some a) (hp : a.Packed)
    (hi : l.index < a.rows.length) (ha : c.get? l.archetype = some a)
    (hr : a.remove l.index p n = .ok (y, b, q))
    (hc : c' = (c.set l.archetype b).recycle l.archetype) :
    Stamped n {x | ¬ w.IsLast l ∧ x ∈ w.columnsAt l} c.stampAt c'.stampAt := by
  have hremove := (Archetype.stamped_remove (by rwa [hp.counted]) hr).mono
    fun x u hu => (Catalogue.stampAt_of_get ha x).trans hu
  have hset := Catalogue.stamped_of_update (Catalogue.get_set ha b) hremove
  have hrecycle : Stamped n ∅ (c.set l.archetype b).stampAt c'.stampAt :=
    Catalogue.stamped_of_kept (fun i x hx => Catalogue.get_of_recycle (hc ▸ hx)) n
  refine (hset.trans hrecycle).congr fun x => ?_
  rw [Set.union_empty, Set.mem_ofPred_eq, Set.mem_ofPred_eq, isLast_iff hl, columnsAt_eq hl rfl]
  exact and_left_comm

end Rows

lemma Filled.stamped (hs : w.Sound) (hx : Filled w w' h id a b) :
    Stamped w.version (w.crossed w') w.catalogue.stampAt w'.catalogue.stampAt := by
  have hget : w'.catalogue.get? id = some b := by rw [hx.get_eq, Function.update_self]
  have hl := congrFun hx.location h
  rw [Function.update_self] at hl
  rw [crossed_of_come hx.archetypeOf_eq (fun m => by simp [hx.unplaced]) hl]
  exact stamped_come hx.found (hs.catalogue.packed _ a hx.found) hx.appended hx.blank hx.get_eq hget

lemma Vacated.stamped (hs : w.Sound) (hx : Vacated w w' h l a b r d) :
    Stamped w.version (w.crossed w') w.catalogue.stampAt w'.catalogue.stampAt := by
  obtain ⟨y, hr⟩ := hx.removed
  have hl := congrFun hx.location h
  rw [Function.update_self] at hl
  rw [crossed_of_go (hx.archetypeOf_eq hs) hx.placed fun m => by simp [hl]]
  exact stamped_leave hx.found (hs.catalogue.packed _ a hx.found)
    (List.getElem?_eq_some_iff.mp hx.row).1 hx.found hr hx.catalogue

lemma Transferred.stamped (hs : w.Sound) (hx : Transferred w w' h l id a a' b b' r d) :
    Stamped w.version (w.crossed w') w.catalogue.stampAt w'.catalogue.stampAt := by
  obtain ⟨q, y, hcame, hr⟩ := hx.exchanged
  have hget : w'.catalogue.get? id = some b' := by
    rw [hx.get_eq, Function.update_of_ne hx.apart.symm, Function.update_self]
  have hl := congrFun hx.location h
  rw [Function.update_self] at hl
  rw [crossed_of_across (hx.archetypeOf_eq hs) hx.placed hl hx.apart]
  have hfirst := stamped_come hx.target (hs.catalogue.packed _ b hx.target) hcame hx.targetBlank
    (Catalogue.get_set hx.target b') hget
  exact hfirst.trans (stamped_leave hx.source (hs.catalogue.packed _ a hx.source)
    (List.getElem?_eq_some_iff.mp hx.row).1 hx.source_set hr hx.catalogue)

/-- Entities are where they were, and archetypes are as they were, but some may have gone. -/
structure Spared (w w' : World) : Prop where
  settled : Settled w' w
  kept : ∀ i a, w'.catalogue.get? i = some a → w.catalogue.get? i = some a

lemma Spared.refl (w : World) : Spared w w := ⟨fun _ _ => Iff.rfl, fun _ _ ha => ha⟩

lemma Spared.stamped (hx : Spared w w') :
    Stamped w.version (w.crossed w') w.catalogue.stampAt w'.catalogue.stampAt := by
  rw [hx.settled.crossed_eq_empty]
  exact Catalogue.stamped_of_kept hx.kept w.version

/-- Only an archetype without entities goes for want of room. -/
lemma Refused.spared (hs : w.Sound) (hr : Refused w fault w') : Spared w w' := by
  refine ⟨fun e l => by rw [hr.handles], fun i x hx => ?_⟩
  obtain ⟨-, ⟨hget, -⟩ | ⟨-, id, a, -, -, hrecycle⟩⟩ := hr.outcome hs
  · rwa [hget] at hx
  · rw [hrecycle] at hx
    exact Catalogue.get_of_recycle hx

lemma Retyped.spared (hs : w.Sound) (hr : Retyped w g h ts (.error (.refused fault) w')) :
    Spared w w' :=
  hr.refusal.spared hs

lemma settled_allocate {t : HandleTable} (ha : w.handles.allocate = .ok (h, t)) :
    Settled { w with handles := t } w := by
  obtain ⟨hnew, hloc, -⟩ := HandleTable.location_allocate ha
  exact .of_update hloc (fun m => by simp [hnew]) fun m => by simp

lemma settled_free {t : HandleTable} (hl : w.handles.location h = .ok none)
    (hf : w.handles.free h = .ok t) : Settled { w with handles := t } w :=
  .of_update (HandleTable.location_free hf).1 (fun m => by simp [hl]) fun m => by simp

lemma Created.spared (hs : w.Sound) (hc : Created w ts (.error (.refused fault) w')) :
    Spared w w' := by
  cases hc with
  | refused => exact .refl w
  | @undone h t t' _ v ha hr hf =>
    have hv := hr.spared ((Transition.allocated ha).sound hs)
    have hl : v.handles.location h = .ok none := by
      rw [hr.handles, (HandleTable.location_allocate ha).2.1, Function.update_self]
    have hfreed := settled_free hl hf
    exact ⟨fun e l => (hfreed e l).trans ((hv.settled e l).trans (settled_allocate ha e l)),
      hv.kept⟩

lemma Destroyed.spared (hd : Destroyed w h (.error (.refused fault) w')) : Spared w w' := by
  cases hd with
  | refused => exact .refl w

lemma put_spared {k : Kind} {u : Value} (hs : w.Sound)
    (hp : put h k u w = .error (.refused fault) w') : Spared w w' := by
  obtain ⟨v, ha, rfl⟩ := assigned_of_put_error hs hp
  cases ha with
  | refused => exact ⟨fun _ _ => Iff.rfl, fun _ _ ha => ha⟩
  | unchanged hk hr =>
    have hv := hr.spared ((Transition.registered hk).sound hs)
    exact ⟨hv.settled, hv.kept⟩

/-- Opening an archetype before an entity is placed there makes no difference. -/
lemma Opened.stamped_then (hs : w.Sound) (ho : Opened w v id a)
    (hx : Stamped v.version (v.crossed w') v.catalogue.stampAt w'.catalogue.stampAt) :
    Stamped w.version (w.crossed w') w.catalogue.stampAt w'.catalogue.stampAt := by
  have hcrossed : v.crossed w' = w.crossed w' := by
    refine crossed_congr_left (fun e l => by rw [ho.handles]) fun e l hl => ?_
    -- what an entity is in was there before
    obtain ⟨b, r, hb, -⟩ := hs.get hl
    rw [ho.get_eq]
    by_cases hid : l.archetype = id
    · obtain ⟨rfl, -⟩ := ho.eq_of_get (hid ▸ hb)
      rw [hid, Function.update_self, ← hb, hid]
    · rw [Function.update_of_ne hid]
  have hboth := (ho.stamped v.version).trans hx
  rwa [Set.empty_union, hcrossed, ho.kept.version] at hboth

lemma Moving.stamped (hs : w.Sound) (hm : Moving w h ts (.ok () w')) :
    Stamped w.version (w.crossed w') w.catalogue.stampAt w'.catalogue.stampAt := by
  cases hm with
  | filled ho hsig hx => exact ho.stamped_then hs (hx.stamped (ho.sound hs))
  | absent hl ht => exact (Spared.refl w).stamped
  | moved hm =>
    cases hm with
    | away ht hx => exact hx.stamped hs
    | still hl ha hsig => exact (Spared.refl w).stamped
    | across ho hsig hx => exact ho.stamped_then hs (hx.stamped (ho.sound hs))

theorem Retyped.stamped (hs : w.Sound) {o : EStateM.Result Failure World Unit}
    (hr : Retyped w g h ts o) (ho : failure o ≠ some .aborted) :
    Stamped w.version (w.crossed (after o)) w.catalogue.stampAt (after o).catalogue.stampAt := by
  cases o with
  | error e w' =>
    cases e with
    | aborted => exact absurd rfl ho
    | refused f => exact (hr.spared hs).stamped
  | ok _ w' =>
    cases hr with
    | same hv hc hg => exact (Spared.refl w).stamped
    | moved hv hc hm => exact hm.stamped hs

theorem Created.stamped (hs : w.Sound) {o : EStateM.Result Failure World Handle}
    (hc : Created w ts o) (ho : failure o ≠ some .aborted) :
    Stamped w.version (w.crossed (after o)) w.catalogue.stampAt (after o).catalogue.stampAt := by
  cases o with
  | error e w' =>
    cases e with
    | aborted => exact absurd rfl ho
    | refused f => exact (hc.spared hs).stamped
  | ok h w' =>
    cases hc with
    | bare ha ht =>
      rw [after, (settled_allocate ha).crossed_eq_empty]
      exact .refl _ _
    | filled hv ha hm =>
      have hx := hm.stamped ((Transition.allocated ha).sound hs)
      rwa [crossed_congr_left (settled_allocate ha) fun _ _ _ => rfl] at hx

theorem Destroyed.stamped (hs : w.Sound) {o : EStateM.Result Failure World Unit}
    (hd : Destroyed w h o) :
    Stamped w.version (w.crossed (after o)) w.catalogue.stampAt (after o).catalogue.stampAt := by
  cases hd with
  | refused hl => exact (Spared.refl w).stamped
  | bare hl hf =>
    rw [after, (settled_free hl hf).crossed_eq_empty]
    exact .refl _ _
  | vacated hx hf =>
    have hl := congrFun hx.location h
    rw [Function.update_self] at hl
    rw [after, crossed_congr_right (settled_free hl hf) fun _ => rfl]
    exact hx.stamped hs

end World

end EntityStore
