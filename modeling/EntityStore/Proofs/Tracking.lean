import Mathlib
import EntityStore.Proofs.Clock
import EntityStore.Proofs.Evolution

/-!
# Changes are tracked by stamps

Over any run of moves, a column whose stamp is none of the versions of the run is one that was there
before, under the same number, in the same place and with the same values, but for rows at its end
that are gone. As long as the versions of the run are near to that at its beginning, asking what
changed since then misses nothing.
-/
namespace EntityStore

open Relation

namespace Catalogue
variable {c c' : Catalogue} {id : Nat} {a b : Archetype}

/-- The columns of the archetypes in use, by number, archetype without entities, chunk and
column. -/
def columns (c : Catalogue) : Columns (Nat × Archetype × Nat × Nat) := fun i u xs =>
  ∃ a, c.get? i.1 = some a ∧ a.blank = i.2.1 ∧ a.columns i.2.2 u xs

end Catalogue

lemma Evolves.traced {v : UInt32} {vs : Set UInt32} {x y : Catalogue × Pool} (h : Evolves v x y)
    (hv : v ∈ vs) : Traced vs x.1.columns y.1.columns := by
  cases h with
  | @added c c' p a ha hchunks hsig =>
    rintro ⟨id, bl, kj⟩ u xs ⟨d, hd, hbl, hcolumn⟩
    rw [(Catalogue.get_add ha).2] at hd
    by_cases hid : id = c.nextId
    · -- the new archetype has no columns yet
      rw [hid, Function.update_self] at hd
      obtain ⟨k, hk, -⟩ := hcolumn
      rw [← Option.some.inj hd, hchunks] at hk
      simp at hk
    · rw [Function.update_of_ne hid] at hd
      exact .inr ⟨xs, ⟨d, hd, hbl, hcolumn⟩, List.prefix_rfl⟩
  | @reshaped c p q id' a b ha hab =>
    rintro ⟨id, bl, kj⟩ u xs ⟨d, hd, hbl, hcolumn⟩
    simp only [Catalogue.get_set ha] at hd
    by_cases hid : id = id'
    · rw [hid, Function.update_self] at hd
      obtain rfl := Option.some.inj hd
      have htraced := hab.traced.mono (Set.singleton_subset_iff.mpr hv)
      refine (htraced kj u xs hcolumn).imp_right fun ⟨ys, hy, hxy⟩ => ?_
      exact ⟨ys, ⟨a, hid ▸ ha, hab.blank.symm.trans hbl, hy⟩, hxy⟩
    · rw [Function.update_of_ne hid] at hd
      exact .inr ⟨xs, ⟨d, hd, hbl, hcolumn⟩, List.prefix_rfl⟩
  | @recycled c p id' he =>
    rintro ⟨id, bl, kj⟩ u xs ⟨d, hd, hbl, hcolumn⟩
    exact .inr ⟨xs, ⟨d, Catalogue.get_of_recycle hd, hbl, hcolumn⟩, List.prefix_rfl⟩
  | flushed c p => exact .refl vs _
  | supplied c p n => exact .refl vs _

/-- Only one kind of move advances the version. -/
def Move.isBump : Move → Bool
  | .bump => true
  | _ => false

def bumps (ms : List Move) : Nat := ms.countP Move.isBump

namespace Session
variable {s : Session}

lemma Invariant.version (hs : s.Invariant) (m : Move) : (s.move m).world.version =
    if m.isBump then Epoch.next s.world.version else s.world.version := by
  cases hm : m.isBump with
  | true =>
    obtain rfl : m = .bump := by
      cases m <;> first | rfl | cases hm
    rfl
  | false =>
    rcases transitions_move hs.sound m with rfl | ⟨n, rfl⟩ | ⟨x, hx⟩
    · cases hm
    · rfl
    · exact hx.version

theorem Invariant.version_run (hs : s.Invariant) (ms : List Move) :
    (s.run ms).world.version = Epoch.next^[bumps ms] s.world.version := by
  induction ms generalizing s with
  | nil => rfl
  | cons m ms ih =>
    have hrest := ih (hs.move m)
    rw [hs.version] at hrest
    rw [run, List.foldl_cons, ← run, hrest, bumps, bumps, List.countP_cons]
    split_ifs <;> rfl

/-- A run of moves is traced by the versions that the store has on the way. -/
theorem Invariant.traced_run (hs : s.Invariant) (ms : List Move) (vs : Set UInt32)
    (hvs : ∀ k ≤ bumps ms, Epoch.next^[k] s.world.version ∈ vs) :
    Traced vs s.world.catalogue.columns (s.run ms).world.catalogue.columns := by
  induction ms generalizing s with
  | nil => exact .refl vs _
  | cons m ms ih =>
    have hfirst : Traced vs s.world.catalogue.columns (s.move m).world.catalogue.columns := by
      have hnow : s.world.version ∈ vs := hvs 0 (Nat.zero_le _)
      exact evolves_induction (P := fun x => Traced vs s.world.catalogue.columns x.1.columns)
        (fun x y h hx => hx.trans (h.traced hnow)) (hs.evolves m) (.refl vs _)
    refine hfirst.trans (ih (hs.move m) fun k hk => ?_)
    rw [hs.version]
    have hcount : bumps (m :: ms) = bumps ms + if m.isBump then 1 else 0 := List.countP_cons
    split_ifs at hcount ⊢
    · exact hvs (k + 1) (by omega)
    · exact hvs k (by omega)

end Session

namespace Archetype
variable {a : Archetype} {c : Chunk} {t : TypeCode} {j k : Nat}

lemma Packed.length_chunk (h : a.Packed) (hc : a.chunks[k]? = some c) :
    c.rows.length ≤ a.capacity := by
  rcases h.dense with hnil | ⟨init, last, hb, -⟩
  · simp [hnil] at hc
  · have hmem := List.mem_of_getElem? hc
    rw [hb.chunks, List.mem_append, List.mem_singleton] at hmem
    rcases hmem with hinit | rfl
    · exact (hb.full c hinit).le
    · exact hb.last

lemma stampOf_eq_ok {u : UInt32} :
    a.stampOf k j = .ok u ↔ ∃ c, a.chunks[k]? = some c ∧ c.stamps[j]? = some u := by
  unfold stampOf
  cases hc : a.chunks[k]? with
  | none => simp
  | some c => cases hu : c.stamps[j]? <;> simp [hu]

lemma map_some_column {n : Nat} (hc : c.Shaped n) (hj : j < n) :
    (c.column j).map some = c.rows.map fun r => r.cell j := by
  have hcell : ∀ r ∈ c.rows, ∃ x, r.cell j = some x := by
    intro r hr
    have hlen := hc.rows r hr
    cases j with
    | zero => exact ⟨_, rfl⟩
    | succ j => exact ⟨_, List.getElem?_eq_getElem (by omega)⟩
  rw [Chunk.column]
  generalize c.rows = rows at hcell
  induction rows with
  | nil => rfl
  | cons r rows ih =>
    obtain ⟨x, hx⟩ := hcell r List.mem_cons_self
    have htail := ih fun s hs => hcell s (List.mem_cons_of_mem r hs)
    simp [hx, htail]

lemma columnOf_view (h : a.Packed) (hc : a.chunks[k]? = some c)
    (hj : a.layout.indexOf t = some j) :
    View.columnOf ⟨a.layout, c⟩ t = some (c.column j) := by
  have hcols := Layout.indexOf_lt hj
  have hoffset : ∃ start, a.layout.offsets[j]? = some start :=
    ⟨_, List.getElem?_eq_getElem (by simpa [Layout.offsets, Layout.sizes, Layout.kinds])⟩
  have hsize : ∃ size, a.layout.sizes[j]? = some size :=
    ⟨_, List.getElem?_eq_getElem (by simpa [Layout.sizes, Layout.kinds])⟩
  obtain ⟨start, hstart⟩ := hoffset
  obtain ⟨size, hsize⟩ := hsize
  have hlen : ¬ a.layout.capacity < c.rows.length := Nat.not_lt.mpr (h.length_chunk hc)
  simp only [View.columnOf, View.column, View.length, hj, Option.bind_some, Layout.columnRange,
    hstart, hsize, hlen, if_false, Except.map, Except.toOption]

/-- What did not change since a version is not stamped with a later one. -/
lemma stamp_of_changed {since : UInt32} (h : a.Packed) (hc : a.chunks[k]? = some c)
    (hj : a.layout.indexOf t = some j) (hch : View.changed ⟨a.layout, c⟩ t since = false) :
    ∃ u, c.stamps[j]? = some u ∧ Epoch.isAfter u since = false := by
  have hstamps := (h.shaped c (List.mem_of_getElem? hc)).stamps
  have hu : c.stamps[j]? = some _ :=
    List.getElem?_eq_getElem (by rw [hstamps]; exact Layout.indexOf_lt hj)
  refine ⟨_, hu, ?_⟩
  simpa [View.changed, View.version, hj, hu] using hch

end Archetype

/-- The column of a type in a chunk is one that was there before, in an archetype of the same number
and types, with the same values but for some at the end that are gone. -/
def World.Carried (w w' : World) (id k : Nat) (t : TypeCode) : Prop :=
  ∃ a b new old vs us, w'.catalogue.get? id = some a ∧ a.view? k = some new ∧
    w.catalogue.get? id = some b ∧ b.view? k = some old ∧ b.codes = a.codes ∧
    new.length ≤ old.length ∧ new.columnOf t = some vs ∧ old.columnOf t = some us ∧
    vs.length = new.length ∧ vs <+: us

lemma World.carried_of_traced {w w' : World} {vs : Set UInt32} {since : UInt32} {a : Archetype}
    {id k : Nat} {view : View} {t : TypeCode} (hs : w.Sound) (hs' : w'.Sound)
    (htraced : Traced vs w.catalogue.columns w'.catalogue.columns)
    (hvs : ∀ u ∈ vs, Epoch.isAfter u since = true) (ha : w'.catalogue.get? id = some a)
    (hview : a.view? k = some view) (ht : t ∈ a.codes) (hch : view.changed t since = false) :
    w.Carried w' id k t := by
  obtain ⟨c, hc, rfl⟩ := Option.map_eq_some_iff.mp hview
  obtain ⟨j, hj⟩ : ∃ j, a.layout.indexOf t = some j :=
    Option.isSome_iff_exists.mp
      ((Archetype.has_iff (hs'.catalogue.drafted _ a ha).pairwise_codes).mpr ht)
  have hp := hs'.catalogue.packed _ a ha
  obtain ⟨u, hu, hafter⟩ := Archetype.stamp_of_changed hp hc hj hch
  rcases htraced (id, a.blank, k, j) u _ ⟨a, ha, rfl, c, hc, hu, rfl⟩ with
    hnew | ⟨ys, ⟨b, hb, hblank, d, hd, -, rfl⟩, hprefix⟩
  · rw [hvs u hnew] at hafter
    cases hafter
  · have hpb := hs.catalogue.packed _ b hb
    have hlayout := Archetype.layout_of_blank hblank
    have hlt := Layout.indexOf_lt hj
    have hnew := Archetype.map_some_column (hp.shaped c (List.mem_of_getElem? hc)) hlt
    have hold := Archetype.map_some_column (hpb.shaped d (List.mem_of_getElem? hd))
      (by rwa [hlayout])
    refine ⟨a, b, _, ⟨b.layout, d⟩, c.column j, d.column j, ha, hview, hb, ?_,
      by rw [Archetype.codes, Archetype.codes, hlayout], ?_, Archetype.columnOf_view hp hc hj,
      Archetype.columnOf_view hpb hd (by rwa [hlayout]), ?_, ?_⟩
    · rw [Archetype.view?, hd]
      rfl
    · simpa [View.length] using hprefix.length_le
    · simpa [View.length] using congrArg List.length hnew
    · rw [← hnew, ← hold] at hprefix
      exact (List.prefix_map_iff_of_injective (Option.some_injective _)).mp hprefix

namespace Session
variable {s : Session}

lemma not_columns_of_new {w : World} (hw : w.New) :
    w.version = Epoch.first ∧ ∀ i u xs, ¬ w.catalogue.columns i u xs := by
  obtain ⟨_, _, _, _, _, -, rfl⟩ := hw.eq
  refine ⟨rfl, ?_⟩
  rintro i u xs ⟨a, ha, -⟩
  simp [Catalogue.new, Catalogue.get?] at ha

/-- Whatever a run of moves has stamped since a store was new, it stamped with a version that the
store had on the way. -/
lemma stamp_of_run {w : World} (hw : w.New) (ms : List Move) {id k j : Nat} {a : Archetype}
    {u : UInt32}
    (ha : (run { world := w } ms).world.catalogue.get? id = some a) (hu : a.stampOf k j = .ok u) :
    ∃ n ≤ bumps ms, u = Epoch.next^[n] Epoch.first := by
  obtain ⟨c, hc, hu⟩ := Archetype.stampOf_eq_ok.mp hu
  obtain ⟨hfirst, hnone⟩ := not_columns_of_new hw
  have htraced := (invariant_create hw).traced_run ms
    {u | ∃ n ≤ bumps ms, u = Epoch.next^[n] Epoch.first} fun k hk => ⟨k, hk, by rw [← hfirst]⟩
  rcases htraced (id, a.blank, k, j) u _ ⟨a, ha, rfl, c, hc, hu, rfl⟩ with hnew | ⟨ys, hold, -⟩
  · exact hnew
  · exact absurd hold (hnone _ _ _)

lemma Strained.exists_run (hs : s.Strained) :
    ∃ (w : World) (ms : List Move), w.New ∧ s = Session.run { world := w } ms := by
  induction hs with
  | @create w hw => exact ⟨w, [], hw, rfl⟩
  | move _ m ih =>
    obtain ⟨w, ms, hw, rfl⟩ := ih
    exact ⟨w, ms ++ [m], hw, by rw [Session.run, Session.run, List.foldl_concat]⟩

lemma first_ne_zero : Epoch.first ≠ 0 := by decide

lemma Strained.version_ne_zero (hs : s.Strained) : s.world.version ≠ 0 := by
  obtain ⟨w, ms, hw, rfl⟩ := hs.exists_run
  rw [(invariant_create hw).version_run, (not_columns_of_new hw).1]
  exact Epoch.iterate_next_ne_zero first_ne_zero _

/-- In every session asking what changed since now will miss nothing, as long as the
versions to come are near: over any run that first advances the version, a column that is said not
to have changed is one that was there at the beginning, with the values it had. No stamp is ever
zero, and until the versions have gone around none is later than the version of the store. -/
theorem changes_are_tracked (hs : s.Strained) :
    (∀ ms, Epoch.Near s.world.version (bumps (.bump :: ms)) → ∀ id k a view t,
      (s.run (.bump :: ms)).world.catalogue.get? id = some a → a.view? k = some view →
      t ∈ a.codes → view.changed t s.world.version = false →
      s.world.Carried (s.run (.bump :: ms)).world id k t) ∧
    (∀ id k j a u, s.world.catalogue.get? id = some a → a.stampOf k j = .ok u → u ≠ 0) ∧
    ∀ (w : World) (ms : List Move), w.New →
      s = Session.run { world := w } ms → bumps ms < 2 ^ 32 - 1 →
      ∀ id k j a u, s.world.catalogue.get? id = some a → a.stampOf k j = .ok u →
        1 ≤ u ∧ u ≤ s.world.version := by
  refine ⟨fun ms hnear id k a view t ha hview ht hch => ?_, fun id k j a u ha hu => ?_,
    fun w ms hw hrun hms id k j a u ha hu => ?_⟩
  · have hbump := hs.invariant.move .bump
    have hcount : bumps (.bump :: ms) = bumps ms + 1 := List.countP_cons_of_pos rfl
    have htraced := hbump.traced_run ms {u | Epoch.isAfter u s.world.version = true}
      fun n hn => by
        have hnext : (s.move .bump).world.version = Epoch.next s.world.version := rfl
        rw [hnext, ← Function.iterate_succ_apply]
        exact Epoch.isAfter_iterate_next hs.version_ne_zero n.succ_pos (hnear.mono (by omega))
    exact World.carried_of_traced hs.invariant.sound (hs.run _).invariant.sound htraced
      (fun u hu => hu) ha hview ht hch
  · obtain ⟨w, ms, hw, rfl⟩ := hs.exists_run
    obtain ⟨n, -, rfl⟩ := stamp_of_run hw ms ha hu
    exact Epoch.iterate_next_ne_zero first_ne_zero n
  · subst hrun
    obtain ⟨n, hn, rfl⟩ := stamp_of_run hw ms ha hu
    have hone : Epoch.first.toNat = 1 := rfl
    have hstamp := Epoch.toNat_iterate_next first_ne_zero n
    have hversion := Epoch.toNat_iterate_next first_ne_zero (bumps ms)
    rw [UInt32.le_iff_toNat_le, UInt32.le_iff_toNat_le, (invariant_create hw).version_run,
      (not_columns_of_new hw).1, UInt32.toNat_one]
    omega

def notes (s : Session) (since : UInt32) : Option (List Value × Bool) :=
  (s.world.catalogue.get? 0).bind fun a => (a.view? 0).bind fun v =>
    (v.columnOf ⟨1⟩).map fun vs => (vs, v.changed ⟨1⟩ since)

lemma notes_eq_some {since : UInt32} {vs : List Value} {changed : Bool}
    (h : s.notes since = some (vs, changed)) :
    ∃ a v, s.world.catalogue.get? 0 = some a ∧ a.view? 0 = some v ∧ ⟨1⟩ ∈ a.codes ∧
      v.columnOf ⟨1⟩ = some vs ∧ v.changed ⟨1⟩ since = changed := by
  obtain ⟨a, ha, h⟩ := Option.bind_eq_some_iff.mp h
  obtain ⟨v, hv, h⟩ := Option.bind_eq_some_iff.mp h
  obtain ⟨us, hus, h⟩ := Option.map_eq_some_iff.mp h
  obtain ⟨rfl, rfl⟩ := Prod.mk.inj h
  obtain ⟨j, hj, -⟩ := Option.bind_eq_some_iff.mp hus
  obtain ⟨c, -, rfl⟩ := Option.map_eq_some_iff.mp hv
  exact ⟨a, _, ha, hv, Layout.mem_of_indexOf hj, hus, rfl⟩

lemma notes_prefix {s s' : Session} {us vs : List Value} {i j : UInt32} {x y : Bool}
    (hc : s.world.Carried s'.world 0 0 ⟨1⟩) (hs : s.notes i = some (us, x))
    (hs' : s'.notes j = some (vs, y)) : vs <+: us := by
  obtain ⟨a, b, new, old, vs', us', ha, hnew, hb, hold, -, -, hvs, hus, -, hprefix⟩ := hc
  simp only [notes, hb, hold, hus, Option.bind_some, Option.map_some, Option.some.injEq,
    Prod.mk.injEq] at hs
  simp only [notes, ha, hnew, hvs, Option.bind_some, Option.map_some, Option.some.injEq,
    Prod.mk.injEq] at hs'
  rwa [← hs.1, ← hs'.1]

/-- Another kind is registered and an entity made with it. The notes are not affected. -/
theorem changes_are_tracked_sample :
    let ms : List Move :=
      [.register { name := "Mark", size := 4, align := 4, initial := .bytes [0] } .none,
        .operate (.createWith [⟨2⟩])]
    Epoch.Near sample.world.version (bumps (.bump :: ms)) ∧
      (sample.run (.bump :: ms)).world.archetypeCount = 2 ∧
      sample.world.Carried (sample.run (.bump :: ms)).world 0 0 ⟨1⟩ := by
  intro ms
  have hnear : Epoch.Near sample.world.version (bumps (.bump :: ms)) := .inl (by decide +kernel)
  have hcount : (sample.run (.bump :: ms)).world.archetypeCount = 2 := by decide +kernel
  have hnotes : (sample.run (.bump :: ms)).notes sample.world.version =
      some ([.text "kept"], false) := by decide +kernel
  obtain ⟨a, v, ha, hv, ht, -, hchanged⟩ := notes_eq_some hnotes
  exact ⟨hnear, hcount,
    (changes_are_tracked strained_sample).1 ms hnear 0 0 a v ⟨1⟩ ha hv ht hchanged⟩

def atVersion (s : Session) (v : UInt32) : Session :=
  { s with world := { s.world with version := v } }

lemma run_replicate_bump (s : Session) (n : Nat) :
    s.run (List.replicate n .bump) = s.atVersion (Epoch.next^[n] s.world.version) := by
  induction n generalizing s with
  | zero => rfl
  | succ n ih =>
    rw [List.replicate_succ, run, List.foldl_cons, ← run, ih, Function.iterate_succ_apply]
    rfl

lemma Strained.atVersion (hs : s.Strained) {v : UInt32} (hv : v ≠ 0) :
    (s.atVersion v).Strained := by
  obtain ⟨n, hn⟩ := Epoch.exists_iterate_next hs.version_ne_zero hv
  rw [← hn, ← run_replicate_bump]
  exact hs.run _

def advances (n : Nat) (m : Move) : List Move := List.replicate n .bump ++ [m]

lemma run_advances (s : Session) (n : Nat) (m : Move) : s.run (.bump :: advances n m) =
    (s.atVersion (Epoch.next^[n + 1] s.world.version)).move m := by
  have happend : .bump :: advances n m = List.replicate (n + 1) .bump ++ [m] := rfl
  rw [happend, ← run_replicate_bump, run, List.foldl_append]
  rfl

lemma bumps_advances (n : Nat) {m : Move} (hm : m.isBump = false) :
    bumps (.bump :: advances n m) = n + 1 := by
  have hone : Move.bump.isBump = true := rfl
  have happend : .bump :: advances n m = List.replicate (n + 1) .bump ++ [m] := rfl
  simp [happend, bumps, List.countP_append, List.countP_replicate, hone, hm]

def renote : Move := .write (.component ⟨1, 1⟩ ⟨1⟩ fun _ => .text "new")

/-- The first write after `2 ^ 31 - 1` advances past zero goes unnoticed, and once the versions have
gone all the way around a stamp can be later than the version of the store. -/
theorem changes_missed_going_around :
    (¬ ∀ (s : Session), s.Strained → ∀ ms, bumps (.bump :: ms) < 2 ^ 31 → ∀ id k a view t,
      (s.run (.bump :: ms)).world.catalogue.get? id = some a → a.view? k = some view →
      t ∈ a.codes → view.changed t s.world.version = false →
      s.world.Carried (s.run (.bump :: ms)).world id k t) ∧
    ¬ ∀ (s : Session), s.Strained → ∀ id k j a u, s.world.catalogue.get? id = some a →
      a.stampOf k j = .ok u → 1 ≤ u ∧ u ≤ s.world.version := by
  constructor
  · intro hclaim
    obtain ⟨k, hk, hround⟩ : ∃ k, k + 1 < 2 ^ 31 ∧ Epoch.next^[k + 1] (2147483649 : UInt32) = 1 :=
      ⟨2147483646, by norm_num,
        by rw [← UInt32.toNat_inj, Epoch.toNat_iterate_next (by decide)]; rfl⟩
    have hreach : (sample.atVersion 2147483649).Strained := strained_sample.atVersion (by decide)
    have hrun : (sample.atVersion 2147483649).run (.bump :: advances k renote) =
        (sample.atVersion 1).move renote := by
      rw [run_advances]
      exact congrArg (fun v => (sample.atVersion v).move renote) hround
    have hbefore : (sample.atVersion 2147483649).notes 0 = some ([.text "kept"], true) := by
      decide +kernel
    have hafter : ((sample.atVersion 1).move renote).notes 2147483649 =
        some ([.text "new"], false) := by decide +kernel
    rw [← hrun] at hafter
    obtain ⟨a, v, ha, hv, ht, -, hchanged⟩ := notes_eq_some hafter
    have hcarried := hclaim _ hreach (advances k renote) (by rw [bumps_advances k rfl]; exact hk)
      0 0 a v ⟨1⟩ ha hv ht hchanged
    have hprefix : [Value.text "new"] <+: [.text "kept"] := notes_prefix hcarried hbefore hafter
    exact absurd hprefix (by decide)
  · intro hclaim
    have hreach : ((sample.run [.bump, renote]).atVersion 1).Strained :=
      (strained_sample.run _).atVersion (by decide)
    have hstamp : (((sample.run [.bump, renote]).atVersion 1).world.catalogue.get? 0).map
        (fun a => (a.stampOf 0 1).toOption) = some (some 2) := by decide +kernel
    obtain ⟨a, ha, hu⟩ := Option.map_eq_some_iff.mp hstamp
    have hu : a.stampOf 0 1 = .ok 2 := by
      cases hs : a.stampOf 0 1 with
      | error f => simp [hs, Except.toOption] at hu
      | ok u => simpa [hs, Except.toOption] using hu
    have hle := (hclaim _ hreach 0 0 1 a 2 ha hu).2
    exact absurd hle (by decide)

end Session

end EntityStore
