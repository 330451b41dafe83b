import Mathlib
import EntityStore.Handle.Table
import EntityStore.Proofs.Archetype

/-!
# Locations and rosters

`Placed` relates the locations of handles with the rosters of archetypes: a handle is located at an
index exactly if the roster has it there. The two changes of a roster, a new handle at its end and
the last handle in place of one that leaves, go with changes of at most two locations. All changes
of a handle's place are made of these.
-/
namespace EntityStore

/-- Each handle is stored where it is located, and nowhere else. -/
def Placed (loc : Handle → Except Fault (Option Location)) (roster : Nat → List Handle) : Prop :=
  ∀ h id i, loc h = .ok (some ⟨id, i⟩) ↔ (roster id)[i]? = some h

namespace Placed
variable {loc : Handle → Except Fault (Option Location)} {roster : Nat → List Handle}
  {h d : Handle} {id i : Nat} {x : Except Fault (Option Location)}

lemma unique (hp : Placed loc roster) {j k : Nat} (h1 : (roster id)[i]? = some h)
    (h2 : (roster j)[k]? = some h) : id = j ∧ i = k := by
  rw [← hp] at h1 h2
  have he : (⟨id, i⟩ : Location) = ⟨j, k⟩ := Option.some.inj (Except.ok.inj (h1.symm.trans h2))
  exact Location.mk.inj he

lemma not_mem (hp : Placed loc roster) (hh : ∀ l, loc h ≠ .ok (some l)) (id : Nat) :
    h ∉ roster id := by
  intro hmem
  obtain ⟨i, hi⟩ := List.mem_iff_getElem?.mp hmem
  exact hh _ ((hp h id i).mpr hi)

/-- A handle that is stored nowhere may change, as long as it gets no place. -/
lemma update (hp : Placed loc roster) (hh : ∀ l, loc h ≠ .ok (some l))
    (hx : ∀ l, x ≠ .ok (some l)) : Placed (Function.update loc h x) roster := by
  intro g id i
  by_cases hg : g = h
  · subst hg
    rw [Function.update_self]
    refine iff_of_false (hx _) fun hi => ?_
    exact hp.not_mem hh id (List.mem_of_getElem? hi)
  · rw [Function.update_of_ne hg]
    exact hp g id i

theorem append (hp : Placed loc roster) (hh : ∀ l, loc h ≠ .ok (some l)) (id : Nat) :
    Placed (Function.update loc h (.ok (some ⟨id, (roster id).length⟩)))
      (Function.update roster id (roster id ++ [h])) := by
  intro g j i
  have hout := hp.not_mem hh
  by_cases hj : j = id
  · subst hj
    rw [Function.update_self, List.getElem?_append]
    by_cases hg : g = h
    · subst hg
      rw [Function.update_self]
      split_ifs with hi
      · refine iff_of_false (by simp; omega) fun hi => ?_
        exact hout j (List.mem_of_getElem? hi)
      · rw [List.getElem?_singleton]
        by_cases hlen : i = (roster j).length
        · simp [hlen]
        · simp [Ne.symm hlen]
          omega
    · rw [Function.update_of_ne hg, hp]
      split_ifs with hi
      · exact Iff.rfl
      · rw [List.getElem?_eq_none (by omega), List.getElem?_singleton]
        simp [Ne.symm hg]
  · rw [Function.update_of_ne hj]
    by_cases hg : g = h
    · subst hg
      rw [Function.update_self]
      refine iff_of_false (by simp [Ne.symm hj]) fun hi => ?_
      exact hout j (List.mem_of_getElem? hi)
    · rw [Function.update_of_ne hg, hp]

theorem swapRemove (hp : Placed loc roster) (hh : loc h = .ok (some ⟨id, i⟩))
    (hd : (roster id)[(roster id).length - 1]? = some d) (hx : ∀ l, x ≠ .ok (some l)) :
    Placed (Function.update (Function.update loc d (.ok (some ⟨id, i⟩))) h x)
      (Function.update roster id (EntityStore.swapRemove (roster id) i)) := by
  have hi : (roster id)[i]? = some h := (hp h id i).mp hh
  have hswap : ∀ {g k}, (EntityStore.swapRemove (roster id) i)[k]? = some g ↔
      g ≠ h ∧ (g = d ∧ k = i ∨ g ≠ d ∧ (roster id)[k]? = some g) :=
    getElem?_swapRemove_eq_some (fun _ _ _ h1 h2 => (hp.unique h1 h2).2) hi hd
  intro g j k
  by_cases hg : g = h
  · subst hg
    rw [Function.update_self]
    refine iff_of_false (hx _) fun hk => ?_
    by_cases hj : j = id
    · subst hj
      rw [Function.update_self, hswap] at hk
      exact hk.1 rfl
    · rw [Function.update_of_ne hj] at hk
      exact hj (hp.unique hi hk).1.symm
  · rw [Function.update_of_ne hg]
    by_cases hj : j = id
    · subst hj
      rw [Function.update_self, hswap]
      by_cases hgd : g = d
      · subst hgd
        rw [Function.update_self]
        simp [hg, eq_comm]
      · rw [Function.update_of_ne hgd, hp]
        simp [hg, hgd]
    · rw [Function.update_of_ne hj]
      by_cases hgd : g = d
      · subst hgd
        rw [Function.update_self]
        refine iff_of_false (by simp [Ne.symm hj]) fun hk => ?_
        exact hj (hp.unique hd hk).1.symm
      · rw [Function.update_of_ne hgd, hp]

end Placed

abbrev Entries (α : Type) := List (Handle × α)

def handlesOf {α : Type} (entries : Nat → Entries α) (id : Nat) : List Handle :=
  (entries id).map Prod.fst

/-- What is found under a handle: nothing if it has no place. -/
def entryAt {α : Type} (loc : Handle → Except Fault (Option Location))
    (entries : Nat → Entries (List α)) (h : Handle) : Except Fault (List α) :=
  (loc h).map fun l =>
    l.elim [] fun l => (((entries l.archetype)[l.index]?).map Prod.snd).getD []

section Entries
variable {α : Type} {entries : Nat → Entries (List α)} {es : List α}
  {loc : Handle → Except Fault (Option Location)} {h g d : Handle} {id i : Nat} {l : Location}
  {f : Fault}

lemma handlesOf_update (entries : Nat → Entries (List α)) (id : Nat) (xs : Entries (List α)) :
    handlesOf (Function.update entries id xs) =
      Function.update (handlesOf entries) id (xs.map Prod.fst) := by
  funext j
  by_cases hj : j = id
  · subst hj
    rw [handlesOf, Function.update_self, Function.update_self]
  · rw [handlesOf, Function.update_of_ne hj, Function.update_of_ne hj, handlesOf]

lemma length_handlesOf (entries : Nat → Entries (List α)) (id : Nat) :
    (handlesOf entries id).length = (entries id).length := by
  simp [handlesOf]

lemma entryAt_of_error (hl : loc h = .error f) : entryAt loc entries h = .error f := by
  rw [entryAt, hl]
  rfl

lemma entryAt_of_none (hl : loc h = .ok none) : entryAt loc entries h = .ok [] := by
  rw [entryAt, hl]
  rfl

lemma entryAt_of_some (hl : loc h = .ok (some l))
    (he : (entries l.archetype)[l.index]? = some (g, es)) : entryAt loc entries h = .ok es := by
  simp [entryAt, hl, he, Except.map]

lemma entryAt_congr {loc' : Handle → Except Fault (Option Location)}
    {entries' : Nat → Entries (List α)} {l' : Location} (hl : loc g = .ok (some l))
    (hl' : loc' g = .ok (some l'))
    (he : (entries' l'.archetype)[l'.index]? = (entries l.archetype)[l.index]?) :
    entryAt loc' entries' g = entryAt loc entries g := by
  rw [entryAt, entryAt, hl, hl']
  simp [Except.map, he]

lemma entryAt_of_same {loc' : Handle → Except Fault (Option Location)}
    {entries' : Nat → Entries (List α)} (hl : loc' g = loc g)
    (he : ∀ l, loc g = .ok (some l) →
      (entries' l.archetype)[l.index]? = (entries l.archetype)[l.index]?) :
    entryAt loc' entries' g = entryAt loc entries g := by
  cases hg : loc g with
  | error f => rw [entryAt_of_error hg, entryAt_of_error (hl.trans hg)]
  | ok m =>
    cases m with
    | none => rw [entryAt_of_none hg, entryAt_of_none (hl.trans hg)]
    | some l => exact entryAt_congr hg (hl.trans hg) (he l hg)

lemma entryAt_update (loc : Handle → Except Fault (Option Location))
    (entries : Nat → Entries (List α)) (h : Handle) (m : Except Fault (Option Location)) :
    entryAt (Function.update loc h m) entries =
      Function.update (entryAt loc entries) h (entryAt (fun _ => m) entries h) := by
  funext g
  by_cases hg : g = h
  · subst hg
    rw [Function.update_self, entryAt, entryAt, Function.update_self]
  · rw [Function.update_of_ne hg]
    exact entryAt_of_same (Function.update_of_ne hg ..) fun l _ => rfl

namespace Placed

lemma get (hp : Placed loc (handlesOf entries)) (hl : loc h = .ok (some l)) :
    ∃ es, (entries l.archetype)[l.index]? = some (h, es) := by
  have hi := (hp h l.archetype l.index).mp hl
  rw [handlesOf, List.getElem?_map] at hi
  obtain ⟨e, he, rfl⟩ := Option.map_eq_some_iff.mp hi
  exact ⟨e.2, he⟩

/-- An entity that gets a place at the end of a list. -/
theorem placed_append (hp : Placed loc (handlesOf entries)) (hh : ∀ l, loc h ≠ .ok (some l))
    (id : Nat) (es : List α) :
    Placed (Function.update loc h (.ok (some ⟨id, (entries id).length⟩)))
      (handlesOf (Function.update entries id (entries id ++ [(h, es)]))) := by
  rw [handlesOf_update, List.map_append, ← length_handlesOf]
  exact hp.append hh id

theorem entryAt_append (hp : Placed loc (handlesOf entries)) (id : Nat) (h : Handle)
    (es : List α) :
    entryAt (Function.update loc h (.ok (some ⟨id, (entries id).length⟩)))
      (Function.update entries id (entries id ++ [(h, es)])) =
      Function.update (entryAt loc entries) h (.ok es) := by
  funext g
  by_cases hg : g = h
  · subst hg
    rw [Function.update_self]
    exact entryAt_of_some (g := g) (Function.update_self ..) (by simp)
  · rw [Function.update_of_ne hg]
    refine entryAt_of_same (Function.update_of_ne hg ..) fun l hl => ?_
    obtain ⟨e, he⟩ := hp.get hl
    by_cases hid : l.archetype = id
    · rw [hid] at he ⊢
      rw [Function.update_self, List.getElem?_append_left (List.getElem?_eq_some_iff.mp he).1]
    · rw [Function.update_of_ne hid]

theorem entryAt_set (hp : Placed loc (handlesOf entries)) (hh : loc h = .ok (some ⟨id, i⟩))
    (es : List α) :
    entryAt loc (Function.update entries id ((entries id).set i (h, es))) =
      Function.update (entryAt loc entries) h (.ok es) := by
  obtain ⟨e, he⟩ := hp.get hh
  have hi : i < (entries id).length := (List.getElem?_eq_some_iff.mp he).1
  funext g
  by_cases hg : g = h
  · subst hg
    rw [Function.update_self]
    exact entryAt_of_some (g := g) hh (by simp [hi])
  · rw [Function.update_of_ne hg]
    refine entryAt_of_same rfl fun l hl => ?_
    by_cases hid : l.archetype = id
    · have hne : i ≠ l.index := by
        intro hil
        obtain ⟨e', he'⟩ := hp.get hl
        rw [hid, ← hil, he] at he'
        exact hg (Prod.mk.inj (Option.some.inj he')).1.symm
      rw [hid, Function.update_self, List.getElem?_set_ne hne]
    · rw [Function.update_of_ne hid]

/-- An entity that leaves its place to the last one of the list. -/
theorem placed_swapRemove (hp : Placed loc (handlesOf entries)) (hh : loc h = .ok (some ⟨id, i⟩))
    (hd : (handlesOf entries id)[(handlesOf entries id).length - 1]? = some d) :
    Placed (Function.update (Function.update loc d (.ok (some ⟨id, i⟩))) h (.ok none))
      (handlesOf (Function.update entries id (EntityStore.swapRemove (entries id) i))) := by
  rw [handlesOf_update, map_swapRemove]
  exact hp.swapRemove hh hd (by simp)

theorem entryAt_swapRemove (hp : Placed loc (handlesOf entries)) (hh : loc h = .ok (some ⟨id, i⟩))
    (hd : (handlesOf entries id)[(handlesOf entries id).length - 1]? = some d) :
    entryAt (Function.update (Function.update loc d (.ok (some ⟨id, i⟩))) h (.ok none))
      (Function.update entries id (EntityStore.swapRemove (entries id) i)) =
      Function.update (entryAt loc entries) h (.ok []) := by
  have hi : (handlesOf entries id)[i]? = some h := (hp h id i).mp hh
  have hlt : i < (entries id).length := by
    rw [← length_handlesOf]
    exact (List.getElem?_eq_some_iff.mp hi).1
  have hswap := getElem?_swapRemove hlt
  rw [length_handlesOf] at hd
  funext g
  by_cases hg : g = h
  · subst hg
    rw [Function.update_self]
    exact entryAt_of_none (Function.update_self ..)
  · rw [Function.update_of_ne hg]
    by_cases hgd : g = d
    · subst hgd
      -- the last entity is found in the hole, with the entry it had
      have hl : loc g = .ok (some ⟨id, (entries id).length - 1⟩) := (hp g id _).mpr hd
      have hne : i ≠ (entries id).length - 1 := by
        intro he
        rw [he, hd] at hi
        exact hg (Option.some.inj hi)
      refine entryAt_congr hl
        (by rw [Function.update_of_ne hg, Function.update_self]) ?_
      simp only [Function.update_self]
      rw [hswap, if_pos (by omega), if_pos rfl]
    · have hloc : Function.update (Function.update loc d (.ok (some ⟨id, i⟩))) h (.ok none) g =
          loc g := by rw [Function.update_of_ne hg, Function.update_of_ne hgd]
      refine entryAt_of_same hloc fun l hl => ?_
      have hgl : (handlesOf entries l.archetype)[l.index]? = some g := (hp g _ _).mp hl
      by_cases hid : l.archetype = id
      · -- a neighbour is neither in the hole nor last, so its entry did not move
        rw [hid] at hgl ⊢
        have hlt' : l.index < (entries id).length := by
          rw [← length_handlesOf]
          exact (List.getElem?_eq_some_iff.mp hgl).1
        have hne : l.index ≠ i := by
          intro he
          rw [he, hi] at hgl
          exact hg (Option.some.inj hgl).symm
        have hne' : l.index ≠ (entries id).length - 1 := by
          intro he
          rw [he, hd] at hgl
          exact hgd (Option.some.inj hgl).symm
        rw [Function.update_self, hswap, if_pos (by omega), if_neg hne]
      · rw [Function.update_of_ne hid]

end Placed

end Entries

end EntityStore
