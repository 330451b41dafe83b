import Mathlib
import EntityStore.Proofs.ColumnWrites
import EntityStore.Proofs.Crossings
import EntityStore.Proofs.Evolution
import EntityStore.Proofs.Tuning

/-!
# Which versions change

A column of a chunk gets the version of the store when an entity comes to the chunk, or leaves it
other than from the end of its archetype, when a component in the column is opened for writing, and
when the column itself is. It keeps its version in all other cases, whatever else happens.
-/
namespace EntityStore

open World

lemma View.stamped_editColumn {v : View} {j : Nat} {e : Edit} {version : UInt32} {d : View.Edited}
    (h : v.editColumn j e version = .ok d) :
    Stamped version {j} v.chunk.stampAt d.chunk.stampAt := by
  obtain ⟨i, -, rfl, -, hchunk, -⟩ := editColumn_eq_ok h
  rw [hchunk]
  exact Chunk.stamped_one rfl

namespace World
variable {w v w' : World} {h : Handle} {t : TypeCode} {k : Kind} {u old : Value} {l : Location}
  {a b : Archetype} {r : Row} {e : Registration} {f : Value → Value} {c c' : Chunk} {id n j : Nat}
  {x : Nat × Nat × Nat}

def columnOf (w : World) (id n : Nat) (t : TypeCode) : Set (Nat × Nat × Nat) :=
  {x | x.1 = id ∧ x.2.1 = n ∧ ∃ a, w.catalogue.get? id = some a ∧ a.layout.indexOf t = some x.2.2}

/-- The column that has the component of a type of an entity. -/
def componentAt (w : World) (h : Handle) (t : TypeCode) : Set (Nat × Nat × Nat) :=
  {x | ∃ l a, w.handles.location h = .ok (some l) ∧ w.catalogue.get? l.archetype = some a ∧
    x ∈ w.columnOf l.archetype (l.index / a.capacity) t}

lemma mem_columnOf (ha : w.catalogue.get? id = some a) : x ∈ w.columnOf id n t ↔
    x.1 = id ∧ x.2.1 = n ∧ a.layout.indexOf t = some x.2.2 := by
  simp [columnOf, ha]

lemma componentAt_eq (hl : w.handles.location h = .ok (some l))
    (ha : w.catalogue.get? l.archetype = some a) (hj : a.layout.indexOf t = some j) :
    w.componentAt h t = {(l.archetype, l.index / a.capacity, j)} := by
  ext x
  simp only [componentAt, hl, Except.ok.injEq, Option.some.injEq, exists_and_left, exists_eq_left',
    ha, Set.mem_ofPred_eq, mem_columnOf ha, hj, Set.mem_singleton_iff, Prod.ext_iff]
  exact and_congr_right fun _ => and_congr_right fun _ => eq_comm

lemma Touched.indexOf (hs : w.Sound) (ht : Touched w h t f l a b r j e u) :
    a.layout.indexOf t = some (j + 1) := by
  have hc : a.layout.columns[j + 1]? = some e := by
    rw [← List.getElem?_tail]
    exact ht.column
  rw [← ht.code]
  exact (hs.registered ht.found hc).2

theorem Touched.stamped (hs : w.Sound) (ht : Touched w h t f l a b r j e u)
    (hc : w'.catalogue = w.catalogue.set l.archetype b) :
    Stamped w.version (w.componentAt h t) w.catalogue.stampAt w'.catalogue.stampAt := by
  rw [hc, componentAt_eq ht.placed ht.found (ht.indexOf hs)]
  have hcell := (Archetype.stamped_modifyCell ht.cell).mono
    fun x u hu => (Catalogue.stampAt_of_get ht.found x).trans hu
  refine (Catalogue.stamped_of_update (Catalogue.get_set ht.found b) hcell).congr fun x => ?_
  simp [Prod.ext_iff]

lemma Touched.layout_eq (hs : w.Sound) (ht : Touched w h t f l a b r j e u) :
    b.layout = a.layout := by
  obtain ⟨-, -, hblank⟩ := Archetype.modifyCell_spec (hs.catalogue.packed _ a ht.found) ht.cell
  exact Archetype.layout_of_blank hblank

/-- Writing a component moves no columns. -/
lemma Touched.columnsAt_eq (hs : w.Sound) (ht : Touched w h t f l a b r j e u)
    (hc : w'.catalogue = w.catalogue.set l.archetype b) (m : Location) :
    w'.columnsAt m = w.columnsAt m := by
  have hcap : b.capacity = a.capacity := congrArg Layout.capacity (ht.layout_eq hs)
  rw [columnsAt, columnsAt, hc, Catalogue.get_set ht.found b]
  by_cases hm : m.archetype = l.archetype
  · simp [hm, ht.found, hcap]
  · rw [Function.update_of_ne hm]

lemma Touched.componentAt_eq (hs : w.Sound) (ht : Touched w h t f l a b r j e u)
    (hl : w'.handles = w.handles) (hc : w'.catalogue = w.catalogue.set l.archetype b) :
    w'.componentAt h t = w.componentAt h t := by
  have hj := ht.indexOf hs
  have hlayout := ht.layout_eq hs
  have hcap : b.capacity = a.capacity := congrArg Layout.capacity hlayout
  have hget : w'.catalogue.get? l.archetype = some b := by
    rw [hc, Catalogue.get_set ht.found b, Function.update_self]
  rw [World.componentAt_eq ht.placed ht.found hj, ← hcap]
  exact World.componentAt_eq (hl ▸ ht.placed) hget (by rw [hlayout, hj])

/-- Storing a value renews the stamp of its column, after those that adding the component does. -/
lemma Assigned.stamped (hs : w.Sound) (ha : Assigned w h k u (.ok () w')) :
    ∃ t, w'.registry.lookup k .none = some t ∧
      Stamped w.version (w.crossed w' ∪ w'.componentAt h t) w.catalogue.stampAt
        w'.catalogue.stampAt := by
  cases ha with
  | @stored t registry v l a b r j old hk hr ht =>
    obtain ⟨-, -, hlookup⟩ := Registry.register_spec hs.registry hk
    have hsound := (Transition.registered hk).sound hs
    have hvs : v.Sound := hr.transitions.sound hsound
    obtain rfl : v.registry = registry := hr.kept.registry
    have hversion : v.version = w.version := hr.kept.version
    let w' : World := { v with
      catalogue := v.catalogue.set l.archetype b, lifetimes := v.lifetimes.drop k old }
    -- the component is there before the value is stored, and stays where it is
    have hadd : Stamped w.version (w.crossed v) w.catalogue.stampAt v.catalogue.stampAt :=
      hr.stamped hsound (by simp)
    have hcell : Stamped v.version (v.componentAt h t) v.catalogue.stampAt w'.catalogue.stampAt :=
      ht.stamped hvs rfl
    have hcrossed : w.crossed w' = w.crossed v :=
      crossed_congr_right (fun _ _ => Iff.rfl) (ht.columnsAt_eq hvs rfl)
    have hcomponent : w'.componentAt h t = v.componentAt h t := ht.componentAt_eq hvs rfl rfl
    refine ⟨t, hlookup, ?_⟩
    rw [hversion] at hcell
    rw [hcrossed, hcomponent]
    exact hadd.trans hcell

lemma stamped_setChunk {J : Set Nat} (ha : w.catalogue.get? id = some a)
    (hc : a.chunks[n]? = some c) (hJ : Stamped w.version J c.stampAt c'.stampAt) :
    Stamped w.version {x | x.1 = id ∧ x.2.1 = n ∧ x.2.2 ∈ J} w.catalogue.stampAt
      (w.setChunk id a n c').catalogue.stampAt := by
  have hchunk : Stamped w.version {x | x.1 = n ∧ x.2 ∈ J} a.stampAt
      (a.modifyChunk n fun _ => c').stampAt := by
    refine Archetype.stamped_modifyChunk fun d hd => ?_
    obtain rfl := Option.some.inj (hc.symm.trans hd)
    exact hJ
  exact Catalogue.stamped_of_update (Catalogue.get_set ha _)
    (hchunk.mono fun x u hu => (Catalogue.stampAt_of_get ha x).trans hu)

lemma columnOf_setChunk (ha : w.catalogue.get? id = some a) (m : Nat) (s : TypeCode) :
    (w.setChunk id a n c').columnOf id m s = w.columnOf id m s := by
  have hget : (w.setChunk id a n c').catalogue.get? id = some (a.modifyChunk n fun _ => c') := by
    rw [setChunk, Catalogue.get_set ha, Function.update_self]
  ext x
  rw [mem_columnOf hget, mem_columnOf ha]
  rfl

lemma stamped_editComponents {e : Edit} {o : View × Option (List Value)}
    (hw : w.editComponents id n k t e = some (o, w')) :
    Stamped w.version {x | o.2.isSome ∧ x ∈ w.columnOf id n t} w.catalogue.stampAt
      w'.catalogue.stampAt ∧
    w'.version = w.version ∧ ∀ m, w'.columnOf id m t = w.columnOf id m t := by
  unfold editComponents at hw
  obtain ⟨⟨a, v⟩, hv, hw⟩ := Option.map_eq_some_iff.mp hw
  obtain ⟨ha, hc, hlayout⟩ := view_eq_some hv
  cases hd : v.editComponents k t e w.version with
  | none =>
    simp only [hd, Prod.mk.injEq] at hw
    obtain ⟨rfl, rfl⟩ := hw
    exact ⟨.same fun x => by simp, rfl, fun _ => rfl⟩
  | some d =>
    simp only [hd, Prod.mk.injEq] at hw
    obtain ⟨rfl, rfl⟩ := hw
    obtain ⟨j, hj, hedit⟩ := Option.bind_eq_some_iff.mp hd
    cases hok : v.editColumn j e w.version with
    | error f => simp [hok, Except.toOption] at hedit
    | ok d' =>
      obtain rfl : d' = d := by simpa [hok, Except.toOption] using hedit
      have hindex := Borrows.columnAs_indexOf hj
      rw [hlayout] at hindex
      refine ⟨(stamped_setChunk ha hc (View.stamped_editColumn hok)).congr fun x => ?_, rfl,
        fun m => columnOf_setChunk ha m t⟩
      simp [mem_columnOf ha, hindex, eq_comm]

lemma stamped_editRun (w : World) (id : Nat) (k : Kind) (t : TypeCode) (e : Edit) (m n : Nat) :
    Stamped w.version {x | ∃ i v vs, (w.editRun id k t e m n).1[i]? = some (v, some vs) ∧
      x ∈ w.columnOf id (n + i) t} w.catalogue.stampAt
      (w.editRun id k t e m n).2.catalogue.stampAt := by
  induction m generalizing w n with
  | zero =>
    refine .same fun x => ?_
    rintro ⟨i, v, vs, hi, -⟩
    cases hi
  | succ m ih =>
    unfold editRun
    cases hd : w.editComponents id n k t e with
    | none =>
      refine .same fun x => ?_
      rintro ⟨i, v, vs, hi, -⟩
      cases hi
    | some ow =>
      obtain ⟨o, w'⟩ := ow
      -- the columns of the other chunks are where they were
      obtain ⟨hfirst, hversion, hcolumn⟩ := stamped_editComponents hd
      have hrest := ih w' (n + 1)
      rw [hversion] at hrest
      refine (hfirst.trans hrest).congr fun x => ?_
      constructor
      · rintro (⟨hgranted, hx⟩ | ⟨i, v, vs, hi, hx⟩)
        · obtain ⟨vs, hvs⟩ := Option.isSome_iff_exists.mp hgranted
          exact ⟨0, o.1, vs, by simp [← hvs], hx⟩
        · rw [hcolumn, Nat.add_right_comm] at hx
          exact ⟨i + 1, v, vs, hi, hx⟩
      · rintro ⟨i, v, vs, hi, hx⟩
        cases i with
        | zero =>
          obtain rfl : o = (v, some vs) := by simpa using hi
          exact .inl ⟨rfl, hx⟩
        | succ i =>
          refine .inr ⟨i, v, vs, hi, ?_⟩
          rwa [hcolumn, Nat.add_right_comm]

end World

namespace Borrows
variable {l : Layout} {q : Request} {rs : List Request} {seen : List (Option (List Value))}
  {e : Edit} {i : Nat}

/-- The columns that were granted for writing. -/
def opened (l : Layout) (rs : List Request) (seen : List (Option (List Value))) : Set Nat :=
  {j | ∃ t e, l.indexOf t = some j ∧ granted rs seen t = some e}

lemma opened_nil (l : Layout) : opened l [] [] = ∅ := by
  rw [Set.eq_empty_iff_forall_notMem]
  rintro j ⟨t, e, -, he⟩
  cases he

lemma opened_cons_claimed (he : q.edit = some e) (hi : l.indexOf q.code = some i)
    (vs : List Value) : opened l (q :: rs) (some vs :: seen) = {i} ∪ opened l rs seen := by
  ext j
  simp only [opened, granted_cons_claimed he]
  constructor
  · rintro ⟨t, e', hj, he'⟩
    by_cases ht : q.code = t
    · subst ht
      exact .inl (Option.some.inj (hj.symm.trans hi))
    · rw [if_neg ht, Option.none_or] at he'
      exact .inr ⟨t, e', hj, he'⟩
  · rintro (rfl | ⟨t, e', hj, he'⟩)
    · exact ⟨q.code, e, hi, by rw [if_pos rfl, Option.some_or]⟩
    · by_cases ht : q.code = t
      · exact ⟨t, e, hj, by rw [if_pos ht, Option.some_or]⟩
      · exact ⟨t, e', hj, by rw [if_neg ht, Option.none_or, he']⟩

/-- Of the columns of a chunk those have new stamps that were granted for writing. -/
theorem stamped_serve (b : Borrows) (rs : List Request) :
    Stamped b.version (opened b.view.layout rs (b.serve rs).1) b.view.chunk.stampAt
      (b.serve rs).2.2.view.chunk.stampAt := by
  induction rs generalizing b with
  | nil =>
    rw [serve, opened_nil]
    exact .refl _ _
  | cons q rs ih =>
    unfold serve
    cases hedit : q.edit with
    | none =>
      cases hshare : b.share q.kind q.code with
      | none => simpa only [hshare, opened, granted_cons_shared hedit] using ih b
      | some vb =>
        obtain ⟨hview, hversion⟩ := share_kept hshare
        have hrest := ih vb.2
        rw [hview, hversion] at hrest
        simpa only [hshare, opened, granted_cons_shared hedit] using hrest
    | some e =>
      cases hclaim : b.claim q.kind q.code e with
      | none => simpa only [hclaim, opened, granted_cons_refused] using ih b
      | some db =>
        obtain ⟨i, hi, -, -, hlayout, hchunk, hversion⟩ := claim_spec hclaim
        have hfirst : Stamped b.version {i + 1} b.view.chunk.stampAt db.2.view.chunk.stampAt := by
          rw [hchunk]
          exact Chunk.stamped_one rfl
        have hrest := ih db.2
        rw [hlayout, hversion] at hrest
        simp only [hclaim, opened_cons_claimed hedit hi]
        exact hfirst.trans hrest

end Borrows

namespace Write
variable {w : World}

/-- The columns that a write gives a new stamp: those that were opened for writing. -/
def restamped (w : World) : Write → Set (Nat × Nat × Nat)
  | component h t f =>
      {x | (∃ old w', modifyComponent h t (fun v => v.amend (f v.content)) w =
        .ok (some old) w') ∧ x ∈ w.componentAt h t}
  | exchange h k v =>
      {x | (∃ old w', World.exchange h k v w = .ok (some old) w') ∧
        ∃ t, w.registry.lookup k .none = some t ∧ x ∈ w.componentAt h t}
  | bytes id n j f => {x | (∃ vs w', w.editBytes id n j f = some (.ok vs, w')) ∧ x = (id, n, j)}
  | column id n k t e =>
      {x | (∃ v vs w', w.editComponents id n k t e = some ((v, some vs), w')) ∧
        x ∈ w.columnOf id n t}
  | columns id k t e =>
      {x | ∃ os w' n v vs, w.editAll id k t e = some (os, w') ∧ os[n]? = some (v, some vs) ∧
        x ∈ w.columnOf id n t}
  | borrow id n rs =>
      {x | ∃ seen w' t e, w.borrow id n rs = some (seen, w') ∧
        Borrows.granted rs seen t = some e ∧ x ∈ w.columnOf id n t}

lemma stamped_component (hs : w.Sound) (h : Handle) (t : TypeCode) (f : Content → Content) :
    Stamped w.version ((component h t f).restamped w) w.catalogue.stampAt
      ((component h t f).run w).catalogue.stampAt := by
  simp only [restamped, run]
  rcases modifyComponent_cases hs h t fun v => v.amend (f v.content) with
    ⟨⟨e, hm⟩, -⟩ | ⟨hm, -⟩ | ⟨l, a, b, r, j, e, u, ht, -, hm⟩
  · rw [hm]
    exact .same fun x => by simp
  · rw [hm]
    exact .same fun x => by simp
  · rw [hm]
    exact (ht.stamped hs rfl).congr fun x => by simp

lemma stamped_exchange (hs : w.Sound) (h : Handle) (k : Kind) (v : Value) :
    Stamped w.version ((exchange h k v).restamped w) w.catalogue.stampAt
      ((exchange h k v).run w).catalogue.stampAt := by
  simp only [restamped, run, World.exchange]
  cases hk : w.registry.lookup k .none with
  | none =>
    cases w.handles.location h <;> exact .same fun x => by simp
  | some t =>
    rcases modifyComponent_cases hs h t fun _ => v with
      ⟨⟨e, hm⟩, -⟩ | ⟨hm, -⟩ | ⟨l, a, b, r, j, e, u, ht, -, hm⟩
    · simp only [hm]
      exact .same fun x => by simp
    · simp only [hm]
      exact .same fun x => by simp
    · simp only [hm]
      exact (ht.stamped hs rfl).congr fun x => by simp

lemma stamped_bytes (w : World) (id n j : Nat) (f : Nat → UInt8 → UInt8) :
    Stamped w.version ((bytes id n j f).restamped w) w.catalogue.stampAt
      ((bytes id n j f).run w).catalogue.stampAt := by
  simp only [restamped, run, editBytes]
  cases hv : w.view? id n with
  | none => exact .same fun x => by simp
  | some av =>
    obtain ⟨a, v⟩ := av
    obtain ⟨ha, hc, -⟩ := view_eq_some hv
    simp only [Option.map_some, Option.getD_some]
    cases hd : v.editColumn j (.ofBytes ((a.layout.sizes[j]?).getD 0) f) w.version with
    | error e => exact .same fun x => by simp
    | ok d =>
      refine (stamped_setChunk ha hc (View.stamped_editColumn hd)).congr fun x => ?_
      simp [Prod.ext_iff]

lemma stamped_borrow (w : World) (id n : Nat) (rs : List Borrows.Request) :
    Stamped w.version ((borrow id n rs).restamped w) w.catalogue.stampAt
      ((borrow id n rs).run w).catalogue.stampAt := by
  simp only [restamped, run, World.borrow]
  cases hv : w.view? id n with
  | none => exact .same fun x => by simp
  | some av =>
    obtain ⟨a, v⟩ := av
    obtain ⟨ha, hc, hlayout⟩ := view_eq_some hv
    have hserve := Borrows.stamped_serve { view := v, version := w.version } rs
    refine (stamped_setChunk ha hc hserve).congr fun x => ?_
    constructor
    · rintro ⟨hid, hn, t, e, hj, he⟩
      rw [hlayout] at hj
      exact ⟨_, _, t, e, rfl, he, (mem_columnOf ha).mpr ⟨hid, hn, hj⟩⟩
    · rintro ⟨seen, w', t, e, hserved, he, hx⟩
      obtain ⟨rfl, rfl⟩ := Prod.mk.inj (Option.some.inj hserved)
      obtain ⟨hid, hn, hj⟩ := (mem_columnOf ha).mp hx
      rw [← hlayout] at hj
      exact ⟨hid, hn, t, e, hj, he⟩

theorem stamped (hs : w.Sound) (m : Write) : Stamped w.version (m.restamped w)
    w.catalogue.stampAt (m.run w).catalogue.stampAt := by
  cases m with
  | component h t f => exact stamped_component hs h t f
  | exchange h k v => exact stamped_exchange hs h k v
  | bytes id n j f => exact stamped_bytes w id n j f
  | borrow id n rs => exact stamped_borrow w id n rs
  | column id n k t e =>
    simp only [restamped, run, World.editColumn]
    cases hd : w.editComponents id n k t e with
    | none => exact .same fun x => by simp
    | some ow =>
      obtain ⟨⟨v, seen⟩, w'⟩ := ow
      refine (stamped_editComponents hd).1.congr fun x => and_congr_left fun _ => ?_
      constructor
      · intro hgranted
        obtain ⟨vs, rfl⟩ := Option.isSome_iff_exists.mp hgranted
        exact ⟨v, vs, w', rfl⟩
      · rintro ⟨_, _, _, ho⟩
        cases ho
        rfl
  | columns id k t e =>
    simp only [restamped, run, editAll]
    cases ha : w.catalogue.get? id with
    | none => exact .same fun x => by simp
    | some a =>
      refine (stamped_editRun w id k t e a.chunks.length 0).congr fun x => ?_
      constructor
      · rintro ⟨i, v, vs, hi, hx⟩
        rw [Nat.zero_add] at hx
        exact ⟨_, _, i, v, vs, rfl, hi, hx⟩
      · rintro ⟨os, w', i, v, vs, hrun, hi, hx⟩
        obtain ⟨rfl, rfl⟩ := Prod.mk.inj (Option.some.inj hrun)
        rw [← Nat.zero_add i] at hx
        exact ⟨i, v, vs, hi, hx⟩

end Write

namespace Operation
variable {w : World} {op : Operation}

/-- The column that an operation has stored a value in. -/
def stored (w : World) : Operation → Set (Nat × Nat × Nat)
  | put h k v =>
      {x | (put h k v).failure w = none ∧
        ∃ t, ((put h k v).run w).registry.lookup k .none = some t ∧
          x ∈ ((put h k v).run w).componentAt h t}
  | _ => ∅

/-- The columns that an operation gives a new stamp. -/
def restamped (w : World) (op : Operation) : Set (Nat × Nat × Nat) :=
  w.crossed (op.run w) ∪ op.stored w

lemma restamped_of_stored (hop : op.stored w = ∅) : op.restamped w = w.crossed (op.run w) := by
  rw [restamped, hop, Set.union_empty]

lemma spared {f : Fault} (hs : w.Sound) (hop : op.failure w = some (.refused f)) :
    Spared w (op.run w) := by
  cases op with
  | create =>
    simp only [run, createEntity]
    cases ha : w.handles.allocate with
    | error g => exact .refl w
    | ok ht => simp [failure, createEntity, ha] at hop
  | createWith ts => exact Created.spared hs (eq_error_of_failure hop ▸ created hs ts)
  | add h ts => exact Retyped.spared hs (eq_error_of_failure hop ▸ added hs h ts)
  | remove h ts => exact Retyped.spared hs (eq_error_of_failure hop ▸ removed hs h ts)
  | put h k u => exact put_spared hs (eq_error_of_failure hop)
  | destroy h => exact Destroyed.spared (eq_error_of_failure hop ▸ destroyed hs h)

lemma stamped_create (w : World) : Stamped w.version (w.crossed (after (createEntity w)))
    w.catalogue.stampAt (after (createEntity w)).catalogue.stampAt := by
  unfold createEntity
  cases ha : w.handles.allocate with
  | error f => exact (Spared.refl w).stamped
  | ok ht =>
    simp only [after, (settled_allocate ha).crossed_eq_empty]
    exact .refl _ _

lemma stamped_put (hs : w.Sound) (h : Handle) (k : Kind) (u : Value)
    (hop : (put h k u).failure w ≠ some .aborted) :
    Stamped w.version ((put h k u).restamped w) w.catalogue.stampAt
      ((put h k u).run w).catalogue.stampAt := by
  simp only [restamped, stored, run, failure] at hop ⊢
  cases hr : World.put h k u w with
  | ok _ w' =>
    obtain ⟨t, ht, hx⟩ := (assigned_of_put hs hr).stamped hs
    simpa [after, ht] using hx
  | error e w' =>
    rw [hr] at hop
    cases e with
    | aborted => exact absurd rfl hop
    | refused f => simpa [World.failure, after] using (put_spared hs hr).stamped

/-- An operation gives the columns that entities cross and the one that it stores a value in a new
stamp, and no others. -/
theorem stamped (hs : w.Sound) (hop : op.failure w ≠ some .aborted) :
    Stamped w.version (op.restamped w) w.catalogue.stampAt (op.run w).catalogue.stampAt := by
  cases op with
  | put h k u => exact stamped_put hs h k u hop
  | create =>
    rw [restamped_of_stored rfl]
    exact stamped_create w
  | createWith ts =>
    rw [restamped_of_stored rfl]
    exact (created hs ts).stamped hs hop
  | add h ts =>
    rw [restamped_of_stored rfl]
    exact (added hs h ts).stamped hs hop
  | remove h ts =>
    rw [restamped_of_stored rfl]
    exact (removed hs h ts).stamped hs hop
  | destroy h =>
    rw [restamped_of_stored rfl]
    exact (destroyed hs h).stamped hs

end Operation

section
variable {w : World} {made : List Handle} {c : Command}

def Command.restamped (made : List Handle) (w : World) (c : Command) : Set (Nat × Nat × Nat) :=
  match c.operation made with
  | .ok op => op.restamped w
  | .error _ => ∅

lemma Command.stamped (hs : w.Sound)
    (hc : World.failure (c.run made w) ≠ some .aborted) :
    Stamped w.version (c.restamped made w) w.catalogue.stampAt
      (after (c.run made w)).catalogue.stampAt := by
  unfold restamped
  cases ho : c.operation made with
  | error f =>
    rw [run_unresolved ho]
    exact .refl _ _
  | ok op =>
    obtain ⟨hrun, hfailure⟩ := run_operation ho w
    rw [hfailure] at hc
    rw [hrun]
    exact Operation.stamped hs hc

/-- The columns that the commands of a script give a new stamp, up to the first that fails. -/
def Script.restamped : List Command → List Handle → World → Set (Nat × Nat × Nat)
  | [], _, _ => ∅
  | c :: cs, made, w =>
      c.restamped made w ∪
        match c.run made w with
        | .ok made w => restamped cs made w
        | .error _ _ => ∅

theorem Script.stamped (hs : w.Sound) (cs : List Command)
    (hc : World.failure (runAll cs made w) ≠ some .aborted) :
    Stamped w.version (restamped cs made w) w.catalogue.stampAt
      (after (runAll cs made w)).catalogue.stampAt := by
  induction cs generalizing w made with
  | nil => exact .refl _ _
  | cons c cs ih =>
    have htransitions := c.transitions hs made
    simp only [runAll, restamped] at hc ⊢
    cases hr : c.run made w with
    | ok made' v =>
      have hfirst : Stamped w.version (c.restamped made w) w.catalogue.stampAt
          (after (c.run made w)).catalogue.stampAt := c.stamped hs (by simp [hr])
      rw [hr] at hfirst htransitions hc
      have hrest := ih (htransitions.sound hs) hc
      rw [htransitions.version] at hrest
      exact hfirst.trans hrest
    | error e v =>
      rw [hr] at hc
      have hfirst : Stamped w.version (c.restamped made w) w.catalogue.stampAt
          (after (c.run made w)).catalogue.stampAt := c.stamped hs (by rw [hr]; exact hc)
      rw [hr] at hfirst
      rwa [Set.union_empty]

end

namespace Request
variable {w : World}

def asks : Request → Bool
  | get .. | types .. | has .. | hasAll .. | archetypeOf .. | matching .. => true
  | _ => false

lemma after_ask {α β : Type} (g : α → β) (q : World → Except Fault α) :
    after ((g <$> Step.ask q) w) = w := by
  rw [after_map, Step.ask]
  cases q w <;> rfl

lemma after_serve {r : Request} (hr : r.asks = true) : after (r.serve w) = w := by
  cases r with
  | operate | exchange | register | fuse | play => cases hr
  | get | types | has | hasAll | archetypeOf | matching => exact after_ask _ _

end Request

namespace Session
variable {s : Session} {id n j : Nat} {v : UInt32}

/-- The columns that a move gives a new stamp. -/
def restamped (s : Session) : Move → Set (Nat × Nat × Nat)
  | .operate op => op.restamped s.world
  | .write m => m.restamped s.world
  | .play i =>
      match s.scripts[i]? with
      | none => ∅
      | some p => Script.restamped p.commands [] s.world
  | _ => ∅

theorem stamped_move (hs : s.world.Sound) {m : Move} (hm : s.failure m ≠ some .aborted) :
    Stamped s.world.version (s.restamped m) s.world.catalogue.stampAt
      (s.move m).world.catalogue.stampAt := by
  cases m with
  | operate op => exact Operation.stamped hs hm
  | write m => exact m.stamped hs
  | play i =>
    simp only [restamped, failure, Session.move] at hm ⊢
    cases hp : s.scripts[i]? with
    | none => exact .refl _ _
    | some p =>
      rw [hp] at hm
      exact Script.stamped hs p.commands hm
  | register k m =>
    simp only [restamped, Session.move]
    cases s.world.registry.register k m <;> exact .refl _ _
  | record i c =>
    simp only [restamped, Session.move]
    cases s.scripts[i]? <;> exact .refl _ _
  | append i j =>
    simp only [restamped, Session.move]
    cases s.scripts[i]? <;> cases s.scripts[j]? <;> (try split_ifs) <;> exact .refl _ _
  | discard i =>
    simp only [restamped, Session.move]
    cases s.scripts[i]? <;> exact .refl _ _
  | bump | flush | fuse | memory | newScript => exact .refl _ _

/-- In every session, whenever chunks could be had, a move that is not cut short gives the columns
that it restamps the version of the store, as it does all columns of a new chunk, and leaves all
others theirs. The columns that it restamps are those of the chunks that entities come to, and leave
other than from the end of their archetype, and those that are opened for writing. What archetypes
there are after an operation was refused were the same before. Adding types that are there, taking
away those that are not, and asking change nothing at all, and advancing the version changes no
column. -/
theorem versions_change_exactly (hs : s.Strained) :
    (∀ m, s.failure m ≠ some .aborted → ∀ id n j v,
      (s.move m).world.catalogue.stampAt (id, n, j) = some v →
        ((id, n, j) ∈ s.restamped m → v = s.world.version) ∧
        ((id, n, j) ∉ s.restamped m → s.world.catalogue.stampAt (id, n, j) = some v) ∧
        (s.world.catalogue.stampAt (id, n, j) = none → v = s.world.version)) ∧
    (∀ (op : Operation) f, op.failure s.world = some (.refused f) → ∀ id a,
      (op.run s.world).catalogue.get? id = some a → s.world.catalogue.get? id = some a) ∧
    (∀ h ts current, s.world.typesOf h = .ok current → Ascending.validate ts = .ok () →
      (ts ⊆ current → World.addComponents h ts s.world = .ok () s.world) ∧
      ((∀ t ∈ ts, t ∉ current) → World.removeComponents h ts s.world = .ok () s.world)) ∧
    (∀ r : Request, r.asks = true → World.after (r.serve s.world) = s.world) ∧
    (s.move .bump).world.catalogue = s.world.catalogue := by
  have hsound := hs.healthy.sound
  refine ⟨fun m hm id n j v hv => ?_, fun op f hop => ?_, fun h ts current hc hts => ?_,
    fun r hr => Request.after_serve hr, rfl⟩
  · have hstamped := stamped_move hsound hm (id, n, j) v hv
    refine ⟨fun hmem => ?_, fun hmem => ?_, fun hnone => ?_⟩
    · exact hstamped.elim And.right fun hkept => absurd hmem hkept.1
    · exact hstamped.elim (fun hnew => absurd hnew.1 hmem) And.right
    · exact hstamped.elim And.right fun hkept => by simp [hnone] at hkept
  · exact (Operation.spared hsound hop).kept
  · have hcurrent := (Ascending.validate_eq_ok.mp (hsound.validate_types hc)).2
    have hgiven := (Ascending.validate_eq_ok.mp hts).2
    exact ⟨fun hsub => World.retype_same hts hc (Ascending.union_of_subset hcurrent hgiven hsub),
      fun hdisjoint =>
        World.retype_same hts hc (Ascending.difference_of_disjoint hcurrent hgiven hdisjoint)⟩

/-- Of two entities in a chunk, the first takes its leave and the stamps there are new; when the
last one does they stay. -/
theorem versions_change_exactly_mixed :
    let s := mixed.run [.operate (.createWith [⟨1⟩]), .bump]
    let first : Move := .operate (.remove ⟨0, 2⟩ [⟨1⟩])
    let last : Move := .operate (.remove ⟨4, 1⟩ [⟨1⟩])
    s.world.version = 2 ∧ s.world.catalogue.stampAt (0, 0, 1) = some 1 ∧
      s.failure first ≠ some .aborted ∧ (0, 0, 1) ∈ s.restamped first ∧
      (s.move first).world.catalogue.stampAt (0, 0, 1) = some 2 ∧
      s.failure last ≠ some .aborted ∧ (0, 0, 1) ∉ s.restamped last ∧
      (s.move last).world.catalogue.stampAt (0, 0, 1) = some 1 := by
  intro s first last
  have hversion : s.world.version = 2 := by decide +kernel
  have hbefore : s.world.catalogue.stampAt (0, 0, 1) = some 1 := by decide +kernel
  have hfirst : (s.move first).world.catalogue.stampAt (0, 0, 1) = some 2 := by decide +kernel
  have hlast : (s.move last).world.catalogue.stampAt (0, 0, 1) = some 1 := by decide +kernel
  have hdone : s.failure first = none ∧ s.failure last = none := by decide +kernel
  have hmixed : mixed.Strained := strained_blank.run _
  have hreach : s.Strained := hmixed.run _
  have hexact := (versions_change_exactly hreach).1
  have hok : s.failure first ≠ some .aborted ∧ s.failure last ≠ some .aborted := by simp [hdone]
  refine ⟨hversion, hbefore, hok.1, ?_, hfirst, hok.2, fun hmem => ?_, hlast⟩
  · by_contra hnot
    have hkept := (hexact first hok.1 0 0 1 2 hfirst).2.1 hnot
    rw [hbefore] at hkept
    exact absurd hkept (by decide)
  · have hnew := (hexact last hok.2 0 0 1 1 hlast).1 hmem
    rw [hversion] at hnew
    exact absurd hnew (by decide)

end Session

end EntityStore
