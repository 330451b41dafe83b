import Mathlib
import EntityStore.Proofs.Refusals

/-!
# Adding components and taking them away again

An entity that gets components is the last one of the archetype it comes to, so taking them away
again moves no other entity there. Its former archetype, if the entity was alone in it, is the last
one that was given up, and an archetype of the same types gets its number back.
-/
namespace EntityStore

section
variable {α : Type}

lemma swapRemove_last (xs : List α) (x : α) : swapRemove (xs ++ [x]) xs.length = xs := by
  simp [swapRemove_concat]

lemma length_swapRemove {xs : List α} {i : Nat} (hi : i < xs.length) :
    (swapRemove xs i).length + 1 = xs.length := (swapRemove_perm hi).length_eq

end

/-- Fitted to other types among which its own are, and back to its own, a list is the same. -/
lemma Listed.fitted_fitted {r : Registry} {es : List (Registration × Value)}
    {cs : List Registration} {ts : List TypeCode} (hl : Listed r es)
    (hcs : r.registrations ts = .ok cs) (hsub : ∀ t ∈ es.map fun e => e.1.code, t ∈ ts)
    (n m : Nat) : fitted m (fitted n es cs) (es.map Prod.fst) = es := by
  have hcodes : (fitted n es cs).map (fun e => e.1.code) = ts := by
    rw [codes_fitted, Registry.codes_of_registrations hcs]
  have hknown : World.lacking (fitted n es cs) (es.map Prod.fst) = [] := by
    refine lacking_eq_nil fun t ht => ?_
    rw [hcodes]
    exact hsub t (by simpa using ht)
  have hpick : ∀ c ∈ es.map Prod.fst, pick (fitted n es cs) c.code = pick es c.code := by
    intro c hc
    obtain ⟨e, he, rfl⟩ := List.mem_map.mp hc
    have hcode : e.1.code ∈ es.map fun e => e.1.code := List.mem_map_of_mem he
    obtain ⟨x, hx⟩ := Option.isSome_iff_exists.mp (pick_isSome.mpr hcode)
    obtain ⟨k, hk⟩ := pick_fitted_registrations hcs n es e.1.code
    rw [hk, if_pos (hsub _ hcode), hx]
    rfl
  calc fitted m (fitted n es cs) (es.map Prod.fst)
      = (es.map Prod.fst).filterMap fun c => (pick es c.code).map fun v => (c, v) := by
        rw [fitted_of_known hknown]
        exact List.filterMap_congr fun c hc => by rw [hpick c hc]
    _ = fitted m es (es.map Prod.fst) := (fitted_of_known (lacking_self es) m).symm
    _ = es := hl.fitted_self m

namespace Catalogue
variable {c c' : Catalogue} {id : Nat} {a b : Archetype} {o : Option Archetype}

/-- The types of the archetypes in use, by number. -/
def typesAt (c : Catalogue) (id : Nat) : Option (List TypeCode) :=
  (c.get? id).map Archetype.signature

lemma typesAt_of_update (h : c'.get? = Function.update c.get? id o) :
    c'.typesAt = Function.update c.typesAt id (o.map Archetype.signature) := by
  funext i
  by_cases hi : i = id
  · rw [hi, typesAt, h, Function.update_self, Function.update_self]
  · rw [typesAt, h, Function.update_of_ne hi, Function.update_of_ne hi, typesAt]

lemma get_leave (ha : c.get? id = some a) (hb : b.Packed) :
    ((c.set id b).recycle id).get? =
      Function.update c.get? id (if b.rows = [] then none else some b) := by
  rw [get_recycle, get_set ha, Function.update_self, Option.any_some]
  by_cases hrows : b.rows = []
  · rw [if_pos (hb.isEmpty.mpr hrows), if_pos hrows, Function.update_idem]
  · rw [if_neg fun he => hrows (hb.isEmpty.mp he), if_neg hrows]

lemma typesAt_of_get (ha : c.get? id = some a) : c.typesAt id = some a.signature := by
  rw [typesAt, ha, Option.map_some]

lemma typesAt_set (ha : c.get? id = some a) (hb : b.blank = a.blank) :
    (c.set id b).typesAt = c.typesAt := by
  rw [typesAt_of_update (get_set ha b), Option.map_some, Archetype.signature_of_blank hb,
    ← typesAt_of_get ha, Function.update_eq_self]

lemma typesAt_leave (ha : c.get? id = some a) (hp : b.Packed) (hb : b.blank = a.blank) :
    ((c.set id b).recycle id).typesAt =
      Function.update c.typesAt id (if b.rows = [] then none else some a.signature) := by
  rw [typesAt_of_update (get_leave ha hp), ← Archetype.signature_of_blank hb]
  split_ifs <;> rfl

end Catalogue

namespace World
variable {w v u w' : World} {h d d' : Handle} {l m : Location} {id k : Nat}
  {ts current : List TypeCode} {a a' b b' c c' : Archetype} {r r' : Row}
  {g : List TypeCode → List TypeCode → List TypeCode}

lemma archetypeOf_of_relocated {place : Option Location} (hs : w.Sound)
    (ha : w.catalogue.get? l.archetype = some a)
    (hd : (a.rows.map Row.handle)[a.rows.length - 1]? = some d)
    (hu : w'.handles.location =
      Function.update (Function.update w.handles.location d (.ok (some l))) h (.ok place)) :
    w'.archetypeOf = Function.update w.archetypeOf h (.ok (place.map Location.archetype)) := by
  rw [List.getElem?_map] at hd
  obtain ⟨last, hlast, rfl⟩ := Option.map_eq_some_iff.mp hd
  have hloc := hs.location ha hlast
  funext e
  by_cases he : e = h
  · rw [he, archetypeOf, hu, Function.update_self, Function.update_self]
    rfl
  · rw [Function.update_of_ne he, archetypeOf, hu, Function.update_of_ne he]
    by_cases hl : e = last.handle
    · rw [hl, Function.update_self, archetypeOf, hloc]
      rfl
    · rw [Function.update_of_ne hl, archetypeOf]

lemma Opened.archetypeOf_eq (ho : Opened w v id a) : v.archetypeOf = w.archetypeOf := by
  funext e
  rw [archetypeOf, ho.handles, archetypeOf]

lemma Filled.archetypeOf_eq (hx : Filled w w' h id a b) :
    w'.archetypeOf = Function.update w.archetypeOf h (.ok (some id)) := by
  funext e
  rw [archetypeOf, hx.location]
  by_cases he : e = h
  · rw [he, Function.update_self, Function.update_self]
    rfl
  · rw [Function.update_of_ne he, Function.update_of_ne he, archetypeOf]

lemma Vacated.archetypeOf_eq (hs : w.Sound) (hx : Vacated w w' h l a b r d) :
    w'.archetypeOf = Function.update w.archetypeOf h (.ok none) :=
  archetypeOf_of_relocated hs hx.found hx.last hx.location

lemma Transferred.archetypeOf_eq (hs : w.Sound) (hx : Transferred w w' h l id a a' b b' r d) :
    w'.archetypeOf = Function.update w.archetypeOf h (.ok (some id)) :=
  archetypeOf_of_relocated hs hx.source hx.last hx.location

lemma Filled.get_eq (hx : Filled w w' h id a b) :
    w'.catalogue.get? = Function.update w.catalogue.get? id (some b) := by
  rw [hx.catalogue, Catalogue.get_set hx.found]

lemma Filled.typesAt_eq (hx : Filled w w' h id a b) :
    w'.catalogue.typesAt = w.catalogue.typesAt := by
  rw [hx.catalogue, Catalogue.typesAt_set hx.found hx.blank]

lemma Vacated.typesAt_eq (hx : Vacated w w' h l a b r d) : w'.catalogue.typesAt = Function.update
    w.catalogue.typesAt l.archetype (if b.rows = [] then none else some a.signature) := by
  rw [hx.catalogue, Catalogue.typesAt_leave hx.found hx.packed hx.blank]

lemma Transferred.source_set (hx : Transferred w w' h l id a a' b b' r d) :
    (w.catalogue.set id b').get? l.archetype = some a := by
  rw [Catalogue.get_set hx.target, Function.update_of_ne hx.apart, hx.source]

lemma Transferred.get_eq (hx : Transferred w w' h l id a a' b b' r d) :
    w'.catalogue.get? = Function.update (Function.update w.catalogue.get? id (some b'))
      l.archetype (if a'.rows = [] then none else some a') := by
  rw [hx.catalogue, Catalogue.get_leave hx.source_set hx.sourcePacked, Catalogue.get_set hx.target]

lemma Transferred.typesAt_eq (hx : Transferred w w' h l id a a' b b' r d) :
    w'.catalogue.typesAt = Function.update w.catalogue.typesAt l.archetype
      (if a'.rows = [] then none else some a.signature) := by
  rw [hx.catalogue, Catalogue.typesAt_leave hx.source_set hx.sourcePacked hx.sourceBlank,
    Catalogue.typesAt_set hx.target hx.targetBlank]

lemma Opened.typesAt_closed (hw : w.catalogue.Occupied) (ho : Opened w v id a) :
    Function.update v.catalogue.typesAt id (if a.rows = [] then none else some a.signature) =
      w.catalogue.typesAt := by
  rw [Catalogue.typesAt_of_update ho.get_eq, Function.update_idem, Function.update_eq_iff]
  refine ⟨?_, fun i _ => rfl⟩
  cases ho with
  | found ha => rw [if_neg (hw _ _ ha), Catalogue.typesAt_of_get ha]
  | added ha =>
    have hrows : a.rows = [] := by simp [Archetype.rows, ha.chunks]
    rw [if_pos hrows, Catalogue.typesAt, (Catalogue.get_add ha.add).1, Option.map_none]

lemma Transferred.eq_of_signature (hs : w.Sound) (hx : Transferred w w' h l id a a' b b' r d)
    (hc : w'.catalogue.get? k = some c) (hsig : c.signature = a.signature) :
    k = l.archetype ∧ c = a' := by
  rw [hx.get_eq] at hc
  by_cases hk : k = l.archetype
  · rw [hk, Function.update_self] at hc
    split_ifs at hc
    exact ⟨hk, (Option.some.inj hc).symm⟩
  · rw [Function.update_of_ne hk] at hc
    by_cases hid : k = id
    · -- the types of the archetype that the entity came to are others
      rw [hid, Function.update_self] at hc
      obtain rfl := Option.some.inj hc
      rw [Archetype.signature_of_blank hx.targetBlank] at hsig
      exact absurd (hs.catalogue.valid.unique hx.source hx.target hsig.symm) hx.apart
    · rw [Function.update_of_ne hid] at hc
      exact absurd (hs.catalogue.valid.unique hc hx.source hsig) hk

/-- An archetype of the types that an entity had before gets the number of the one it has left. -/
lemma Transferred.reopened (hs : w.Sound) (hx : Transferred w v h l id a a' b b' r d)
    (ho : Opened v u k c) (hsig : c.signature = a.signature) : k = l.archetype := by
  cases ho with
  | found hc => exact (hx.eq_of_signature hs hc hsig).1
  | added hc =>
    by_cases hrows : a'.rows = []
    · -- the last number that was given up is the next one
      have hget : ((w.catalogue.set id b').set l.archetype a').get? l.archetype = some a' := by
        rw [Catalogue.get_set hx.source_set, Function.update_self]
      rw [Catalogue.nextId, hx.catalogue,
        Catalogue.recycle_of_empty hget (hx.sourcePacked.isEmpty.mpr hrows), Option.getD_some]
    · have hget : v.catalogue.get? l.archetype = some a' := by
        rw [hx.get_eq, Function.update_self, if_neg hrows]
      obtain ⟨-, -, -, hnew, -⟩ :=
        Catalogue.add_spec (hx.sound hs).catalogue.valid hc.add
      refine absurd ?_ (hnew _ _ hget)
      rw [Archetype.signature_of_blank hx.sourceBlank, hsig]

/-- The ways in which an entity can come to have other types than it has. -/
inductive Changed (w : World) (h : Handle) (current ts : List TypeCode) (w' : World) : Prop
  | filled {v : World} {id : Nat} {a b : Archetype} (hc : current = []) (ho : Opened w v id a)
      (hsig : a.signature = ts) (hx : Filled v w' h id a b)
  | away {l : Location} {a b : Archetype} {r : Row} {d : Handle} (hc : a.signature = current)
      (ht : ts = []) (hx : Vacated w w' h l a b r d)
  | across {v : World} {l : Location} {id : Nat} {a a' b b' : Archetype} {r : Row} {d : Handle}
      (hc : a.signature = current) (ho : Opened w v id b) (hsig : b.signature = ts)
      (hx : Transferred v w' h l id a a' b b' r d)

lemma Moving.changed (hm : Moving w h ts (.ok () w')) (hc : w.typesOf h = .ok current)
    (hdiff : ts ≠ current) : Changed w h current ts w' := by
  cases hm with
  | absent hl ht =>
    simp only [typesOf, hl, Except.ok.injEq] at hc
    exact absurd (ht.trans hc) hdiff
  | filled ho hsig hx =>
    have hl := hx.unplaced
    rw [ho.handles] at hl
    simp only [typesOf, hl, Except.ok.injEq] at hc
    exact .filled hc.symm ho hsig hx
  | moved hm =>
    cases hm with
    | away ht hx =>
      rw [typesOf_of_get hx.placed hx.found] at hc
      exact .away (Except.ok.inj hc) ht hx
    | still hl ha hsig =>
      rw [typesOf_of_get hl ha, hsig] at hc
      exact absurd (Except.ok.inj hc) hdiff
    | across ho hsig hx =>
      have hl := hx.placed
      have ha := hx.source
      rw [ho.handles] at hl
      rw [ho.get_eq, Function.update_of_ne hx.apart] at ha
      rw [typesOf_of_get hl ha] at hc
      exact .across (Except.ok.inj hc) ho hsig hx

lemma Retyped.changed (hr : Retyped w g h ts (.ok () w')) (hc : w.typesOf h = .ok current)
    (hg : ∀ as bs, (g as bs).length = as.length → g as bs = as) (hdiff : g current ts ≠ current) :
    Changed w h current (g current ts) w' := by
  cases hr with
  | same hv hc' hlen =>
    obtain rfl := Except.ok.inj (hc.symm.trans hc')
    exact absurd (hg _ _ hlen) hdiff
  | moved hv hc' hm =>
    obtain rfl := Except.ok.inj (hc.symm.trans hc')
    exact hm.changed hc hdiff

section
variable (hs : w.Sound) (hw : w.catalogue.Occupied)
include hs hw

lemma Filled.undone (ho : Opened w v id a) (hx : Filled v u h id a b)
    (hy : Vacated u w' h l c c' r d) :
    w'.archetypeOf = w.archetypeOf ∧ w'.catalogue.typesAt = w.catalogue.typesAt := by
  have hv := ho.sound hs
  have hu := hx.sound hv
  have hplaced := hy.placed
  rw [hx.location, Function.update_self] at hplaced
  obtain rfl : ⟨id, a.rows.length⟩ = l := Option.some.inj (Except.ok.inj hplaced)
  have hfound := hy.found
  rw [hx.get_eq, Function.update_self] at hfound
  obtain rfl := Option.some.inj hfound
  have hrows : c'.rows = a.rows := by rw [hy.rows, hx.rows, swapRemove_last]
  constructor
  · have hunplaced : w.archetypeOf h = .ok none := by
      rw [← ho.archetypeOf_eq, archetypeOf, hx.unplaced]
      rfl
    rw [hy.archetypeOf_eq hu, hx.archetypeOf_eq, Function.update_idem, ho.archetypeOf_eq,
      ← hunplaced, Function.update_eq_self]
  · rw [hy.typesAt_eq, hx.typesAt_eq, hrows, Archetype.signature_of_blank hx.blank,
      ho.typesAt_closed hw]

/-- An entity is brought to another archetype and, when it has got its former types again, is in its
former archetype, even if that was given up in between. -/
lemma Transferred.undone {x : World} {e e' : Archetype} (ho : Opened w v id b)
    (hx : Transferred v u h l id a a' b b' r d) (ho' : Opened u x k c)
    (hsig : c.signature = a.signature) (hy : Transferred x w' h m k e e' c c' r' d') :
    w'.archetypeOf = w.archetypeOf ∧ w'.catalogue.typesAt = w.catalogue.typesAt := by
  have hv := ho.sound hs
  have hu := hx.sound hv
  obtain rfl := hx.reopened hv ho' hsig
  have hplaced := hy.placed
  rw [ho'.handles, hx.location, Function.update_self] at hplaced
  obtain rfl : ⟨id, b.rows.length⟩ = m := Option.some.inj (Except.ok.inj hplaced)
  have hsource := hy.source
  rw [ho'.get_eq, Function.update_of_ne hy.apart, hx.get_eq, Function.update_of_ne hy.apart,
    Function.update_self] at hsource
  obtain rfl := Option.some.inj hsource
  have hrows : e'.rows = b.rows := by rw [hy.sourceRows, hx.targetRows, swapRemove_last]
  constructor
  · have hbefore : w.archetypeOf h = .ok (some l.archetype) := by
      rw [← ho.archetypeOf_eq, archetypeOf, hx.placed]
      rfl
    rw [hy.archetypeOf_eq (ho'.sound hu), ho'.archetypeOf_eq, hx.archetypeOf_eq hv,
      Function.update_idem, ho.archetypeOf_eq, ← hbefore, Function.update_eq_self]
  · have hopened : x.catalogue.typesAt = v.catalogue.typesAt := by
      rw [Catalogue.typesAt_of_update ho'.get_eq, hx.typesAt_eq, Function.update_idem,
        Option.map_some, hsig, ← Catalogue.typesAt_of_get hx.source, Function.update_eq_self]
    rw [hy.typesAt_eq, hopened, hrows, Archetype.signature_of_blank hx.targetBlank,
      ho.typesAt_closed hw]

end

lemma component_entity_eq (hs : w.Sound) (h : Handle) : w.component h .entity =
    (w.archetypeOf h).map fun o => o.map fun _ => h.value := by
  cases hl : w.handles.location h with
  | error f => simp only [component, archetypeOf, hl, Except.map]
  | ok o =>
    cases o with
    | none => simp only [component, archetypeOf, hl, Except.map, Option.map_none]
    | some l =>
      rw [component_entity hs hl, archetypeOf, hl]
      rfl

lemma Retyped.typesOf_eq (hs : w.Sound) (hr : Retyped w g h ts (.ok () v))
    (hg : ∀ as bs, (g as bs).length = as.length → g as bs = as)
    (hc : w.typesOf h = .ok current) : v.typesOf h = .ok (g current ts) := by
  have hv : v.Sound := hr.transitions.sound hs
  obtain ⟨es, cs, -, he, hcs, hup⟩ := hr.entry hs hg
  rw [World.typesOf_eq hs, he] at hc
  obtain rfl := Except.ok.inj hc
  rw [World.typesOf_eq hv, hup, Function.update_self, ← Registry.codes_of_registrations hcs,
    ← codes_fitted w.lifetimes.count es cs]
  rfl

/-- Types that an entity did not have come and go without a trace in its components. -/
lemma Retyped.entry_undone (hs : w.Sound) (hc : w.typesOf h = .ok current)
    (hadd : Retyped w Ascending.union h ts (.ok () v))
    (hremove : Retyped v Ascending.difference h ts (.ok () w'))
    (hback : Ascending.difference (Ascending.union current ts) ts = current) :
    w'.entry = w.entry := by
  have hv : v.Sound := hadd.transitions.sound hs
  obtain ⟨es, cs, -, he, hcs, hup⟩ := hadd.entry hs Ascending.union_of_length
  obtain ⟨es', cs', -, he', hcs', hdown⟩ := hremove.entry hv Ascending.difference_of_length
  obtain ⟨_, hes, rfl⟩ := typesOf_eq_ok hs hc
  obtain rfl := Except.ok.inj (he.symm.trans hes)
  obtain ⟨_, hes', htypes⟩ := typesOf_eq_ok hv (hadd.typesOf_eq hs Ascending.union_of_length hc)
  obtain rfl := Except.ok.inj (he'.symm.trans hes')
  have hlisted := (hs.listed he).1
  -- the types that are left are those of before
  rw [htypes, hback, hadd.kept.registry, hlisted.registrations] at hcs'
  obtain rfl := Except.ok.inj hcs'
  rw [hup, Function.update_self] at he'
  obtain rfl := Except.ok.inj he'
  have hfitted := hlisted.fitted_fitted hcs (fun t ht => Ascending.mem_union.mpr (.inl ht))
  rw [hdown, hup, Function.update_idem, hfitted, ← he, Function.update_eq_self]

/-- One entity less is in the archetype that an entity has left, so it may come back. -/
lemma Transferred.admits (hs : w.Sound) (hx : Transferred w v h l id a a' b b' r d)
    (hlim : a.chunks.length ≤ a.maxChunks) (hmem : v.pool.supply = none)
    (ha : v.Acceptable a.signature) : v.Admits a.signature := by
  refine ⟨ha, fun i c hc hsig => ?_, fun _ => ?_⟩
  · obtain ⟨-, rfl⟩ := hx.eq_of_signature hs hc hsig
    have hp := hs.catalogue.packed _ a hx.source
    have hmax := (hs.catalogue.drafted _ a hx.source).maxChunks
    have hcap : c.capacity = a.capacity :=
      congrArg Layout.capacity (Archetype.layout_of_blank hx.sourceBlank)
    have hpos := (List.getElem?_eq_some_iff.mp hx.row).1
    have hless : c.count < a.count := by
      rw [hx.sourcePacked.counted, hp.counted, hx.sourceRows, ← length_swapRemove hpos]
      exact Nat.lt_succ_self _
    rw [hcap, hx.kept.settings, ← hmax]
    calc c.count < a.count := hless
      _ ≤ a.capacity * a.chunks.length := hp.count_le.1
      _ ≤ a.capacity * a.maxChunks := Nat.mul_le_mul_left _ hlim
  · cases htake : v.pool.take with
    | ok q => exact ⟨q, rfl⟩
    | error f =>
      have hnone := (Pool.take_eq_error htake).2.1
      rw [hmem] at hnone
      cases hnone

section
variable (hw : w.Healthy) (hlim : w.catalogue.Limited) (hmem : w.pool.supply = none)
  (hv : v.Healthy) (hlimv : v.catalogue.Limited) (hts : Ascending.validate ts = .ok ())
  (hc : w.typesOf h = .ok current)
include hw hlim hmem hv hlimv hts hc

lemma exists_removal (hback : Ascending.difference (Ascending.union current ts) ts = current)
    (hr : Retyped w Ascending.union h ts (.ok () v))
    (hx : Changed w h current (Ascending.union current ts) v)
    (hdiff : Ascending.union current ts ≠ current) :
    ∃ w', removeComponents h ts v = .ok () w' := by
  have hcv := hr.typesOf_eq hw.sound Ascending.union_of_length hc
  by_cases hnil : current = []
  · exact remove_all_or_nothing hv hts hcv (.inl (hback.trans hnil))
  have hrefusals := remove_refusals hv hlimv hts hcv
  rw [hback] at hrefusals
  obtain ⟨haccept, hnone, -⟩ := hrefusals hnil hdiff.symm
  refine failure_eq_none_unit.mp (hnone.mpr ?_)
  cases hx with
  | filled hc => exact absurd hc hnil
  | away hc ht => exact absurd (List.sublist_nil.mp (ht ▸ Ascending.sublist_union current ts)) hnil
  | across hc ho hsig hx =>
    have hsource := hx.source
    rw [ho.get_eq, Function.update_of_ne hx.apart] at hsource
    have hmemory := (hr.kept.pool.supply (.inl hmem)).trans hmem
    rw [← hc] at haccept ⊢
    exact hx.admits (ho.sound hw.sound) (hlim _ _ hsource) hmemory haccept

theorem removal_undoes (hocc : w.catalogue.Occupied) (hdisjoint : ∀ t ∈ ts, t ∉ current)
    (hadd : addComponents h ts w = .ok () v) :
    ∃ w', removeComponents h ts v = .ok () w' ∧ w'.entry = w.entry ∧
      w'.archetypeOf = w.archetypeOf ∧ w'.catalogue.typesAt = w.catalogue.typesAt := by
  have hascending := (Ascending.validate_eq_ok.mp (hw.sound.validate_types hc)).2
  have hback :=
    Ascending.difference_union hascending (Ascending.validate_eq_ok.mp hts).2 hdisjoint
  by_cases hdiff : Ascending.union current ts = current
  · -- there is nothing to add, so nothing to take away
    rw [addComponents, retype_same hts hc hdiff] at hadd
    obtain rfl : w = v := (EStateM.Result.ok.inj hadd).2
    rw [hdiff] at hback
    exact ⟨w, retype_same hts hc hback, rfl, rfl, rfl⟩
  have hr : Retyped w Ascending.union h ts (.ok () v) := hadd ▸ added hw.sound h ts
  have hx := hr.changed hc Ascending.union_of_length hdiff
  obtain ⟨w', hremove⟩ := exists_removal hw hlim hmem hv hlimv hts hc hback hr hx hdiff
  have hr' : Retyped v Ascending.difference h ts (.ok () w') := hremove ▸ removed hv.sound h ts
  have hy := hr'.changed (hr.typesOf_eq hw.sound Ascending.union_of_length hc)
    Ascending.difference_of_length (by rw [hback]; exact Ne.symm hdiff)
  rw [hback] at hy
  refine ⟨w', hremove, hr.entry_undone hw.sound hc hr' hback, ?_⟩
  have hfull : Ascending.union current ts ≠ [] := by
    intro hnil
    have hsub := Ascending.sublist_union current ts
    rw [hnil, List.sublist_nil] at hsub
    exact hdiff (hnil.trans hsub.symm)
  cases hx with
  | away hc ht => exact absurd ht hfull
  | filled hc ho hsig hx =>
    cases hy with
    | filled hc' => exact absurd hc' hfull
    | away hc' ht hy => exact hx.undone hw.sound hocc ho hy
    | across hc' ho' hsig' hy =>
      exact absurd (hsig'.trans hc) ((hv.opened ho').consistent.tidy.named _ _ hy.target)
  | across hc ho hsig hx =>
    cases hy with
    | filled hc' => exact absurd hc' hfull
    | away hc' ht hy =>
      exact absurd (hc.trans ht) ((hw.opened ho).consistent.tidy.named _ _ hx.source)
    | across hc' ho' hsig' hy =>
      exact hx.undone hw.sound hocc ho ho' (hsig'.trans hc.symm) hy

end

end World

namespace Session
variable {s : Session} {h : Handle} {current ts : List TypeCode} {w : World}

/-- In every session in which no default failed and memory has no end, types that an entity does not
have and that were added to it can be taken away again. Then the entity and every other one has its
types, its components and its archetype of before, and the archetypes in use have the numbers and
the types of before, even if one of them was given up in between. -/
theorem removal_undoes_addition (hs : s.Calm) (hmemory : s.world.pool.supply = none)
    (hcurrent : s.world.typesOf h = .ok current) (hts : TypeCode.entity ∉ ts ∧ ts.Pairwise (· < ·))
    (hdisjoint : ∀ t ∈ ts, t ∉ current) (hadd : World.addComponents h ts s.world = .ok () w) :
    ∃ w', World.removeComponents h ts w = .ok () w' ∧ w'.typesOf h = .ok current ∧
      (∀ e, w'.typesOf e = s.world.typesOf e) ∧
      (∀ e t, w'.component e t = s.world.component e t) ∧
      (∀ e, w'.archetypeOf e = s.world.archetypeOf e) ∧
      ∀ id, (w'.catalogue.get? id).map Archetype.signature =
        (s.world.catalogue.get? id).map Archetype.signature := by
  have hstrained := hs.strained
  have hw := hstrained.healthy
  have hmoved := hstrained.move (.operate (.add h ts))
  have hworld : (s.move (.operate (.add h ts))).world = w := by
    simp only [move, Operation.run, hadd, World.after]
  have hv := hmoved.healthy
  have hlimv := hmoved.limited
  rw [hworld] at hv hlimv
  obtain ⟨w', hremove, hentry, harchetype, htypes⟩ :=
    World.removal_undoes hw hstrained.limited hmemory hv hlimv (Ascending.validate_eq_ok.mpr hts)
      hcurrent hs.occupied hdisjoint hadd
  have hr : World.Retyped w Ascending.difference h ts (.ok () w') :=
    hremove ▸ World.removed hv.sound h ts
  have hsound : w'.Sound := hr.transitions.sound hv.sound
  have hsame : ∀ e, w'.typesOf e = s.world.typesOf e := fun e => by
    rw [World.typesOf_eq hsound, World.typesOf_eq hw.sound, hentry]
  refine ⟨w', hremove, (hsame h).trans hcurrent, hsame, fun e t => ?_, congrFun harchetype,
    congrFun htypes⟩
  by_cases ht : t = .entity
  · rw [ht, World.component_entity_eq hsound, World.component_entity_eq hw.sound, harchetype]
  · rw [World.component_eq hsound e ht, World.component_eq hw.sound e ht, hentry]

/-- The entity is alone with its mark in the third archetype, which is given up when it gets a note,
too, and made again when the note is taken away. -/
theorem removal_undoes_addition_mixed : ∃ w w',
    mixed.world.archetypeOf ⟨2, 1⟩ = .ok (some 2) ∧
    World.addComponents ⟨2, 1⟩ [⟨1⟩] mixed.world = .ok () w ∧ w.archetypeOf ⟨2, 1⟩ = .ok (some 1) ∧
    w.catalogue.get? 2 = none ∧ World.removeComponents ⟨2, 1⟩ [⟨1⟩] w = .ok () w' ∧
    w'.archetypeOf ⟨2, 1⟩ = .ok (some 2) ∧
    (w'.catalogue.get? 2).map Archetype.signature = some [⟨2⟩] := by
  have hcalm : mixed.Calm := calm_blank.run (by decide +kernel)
  have hnone : World.failure (World.addComponents ⟨2, 1⟩ [⟨1⟩] mixed.world) = none := by
    decide +kernel
  obtain ⟨w, hadd⟩ := World.failure_eq_none_unit.mp hnone
  have hw : World.after (World.addComponents ⟨2, 1⟩ [⟨1⟩] mixed.world) = w := by rw [hadd]; rfl
  have hbefore : mixed.world.archetypeOf ⟨2, 1⟩ = .ok (some 2) := by rfl
  have hsignature : (mixed.world.catalogue.get? 2).map Archetype.signature = some [⟨2⟩] := by rfl
  have hcurrent : mixed.world.typesOf ⟨2, 1⟩ = .ok [⟨2⟩] := by rfl
  obtain ⟨w', hremove, -, -, -, harchetype, htypes⟩ := removal_undoes_addition hcalm
    (by decide +kernel) hcurrent (by decide) (by decide) hadd
  refine ⟨w, w', hbefore, hadd, ?_, ?_, hremove, (harchetype _).trans hbefore,
    (htypes 2).trans hsignature⟩
  · rw [← hw]
    decide +kernel
  · rw [← hw, ← Option.isNone_iff_eq_none]
    decide +kernel

end Session

end EntityStore
